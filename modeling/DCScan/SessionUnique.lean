import Mathlib.Data.List.Nodup
import DCScan.SessionCalls

/-!
Nothing is duplicated in a session (`Unique`): a call has at most one message under way,
one thread, one promise and one execution, and, as long as every call draws an id that no
open call holds (`Fresh`), open calls have distinct ids. So a reply finds the call it
answers.
-/

namespace DCScan.Session

open Lib Message

variable {maxSub : UInt8} {s t : State} {a : Action} {n k : Nat} {c d : Call}

/-- What still leads to a call: its thread, its message, or its promise. -/
inductive Holds (s : State) (n : Nat) : Prop where
  | thread {i : Nat} (inCall : (s.threads i).call = some n)
  | message (underWay : n ∈ tags s.pipeline)
  | slot (tag : s.lmessage.call = some n)
  | promise {id : UInt64} (stored : s.asyncMessProm id = some n)

/-- The message of a call has left its thread. -/
def Scheduled (s : State) (n : Nat) : Prop :=
  n ∈ tags s.pipeline ∨ s.lmessage.call = some n ∨ n ∈ s.executed.map Execution.call ∨
    n ∈ s.delivered

/-- Each call has at most one message under way or in the slot, and none under way once its
reply was delivered. -/
structure Located (s : State) : Prop where
  once : (tags s.pipeline).Nodup
  undelivered : ∀ n ∈ tags s.pipeline, n ∉ s.delivered
  slot : ∀ {n}, s.lmessage.call = some n → n ∉ tags s.pipeline

/-- Each request is executed at most once, and not while it is on its way. -/
structure ExecutedOnce (s : State) : Prop where
  once : (s.executed.map Execution.call).Nodup
  waiting : ∀ n ∈ tags (s.toServer ++ s.outbound), n ∉ s.executed.map Execution.call

/-- Each call is made by one thread, which schedules its message once and is gone once its
promise is stored. -/
structure ThreadOwned (s : State) : Prop where
  one : ∀ {i j n}, (s.threads i).call = some n → (s.threads j).call = some n → i = j
  drawn : ∀ {i sync n msg}, s.threads i = .drawn sync n msg → ¬Scheduled s n
  promise : ∀ {id n}, s.asyncMessProm id = some n → ∀ i, (s.threads i).call ≠ some n

structure Unique (s : State) : Prop extends Located s, ThreadOwned s where
  executions : ExecutedOnce s
  opened : ∀ {n}, Holds s n → Open s n
  /-- No two open calls hold the same id. -/
  ids : ∀ {n k c d}, Open s n → Open s k → s.calls[n]? = some c → s.calls[k]? = some d →
    c.id = d.id → n = k
  recorded : ∀ n, n ∈ s.done ∨ Scheduled s n → n < s.calls.length

@[simp] theorem tags_append (ms ns : List Tagged) : tags (ms ++ ns) = tags ms ++ tags ns :=
  List.filterMap_append

@[simp] theorem tags_cons (m : Tagged) (ms : List Tagged) :
    tags (m :: ms) = m.call.toList ++ tags ms := by
  cases call : m.call <;> simp [tags, call]

@[simp] theorem tags_nil : tags [] = [] := rfl

/-! ## A reply finds its call -/

/-- The message in the slot answers the thread that takes it. -/
theorem take_own (shape : Shape s) (uniq : Unique s) {i : Nat} {id : UInt64}
    (stand : s.threads i = .waiting n id)
    (held : s.lmessage.msg.ptr.isSome) (same : s.lmessage.msg.id = id) :
    s.lmessage.call = some n ∧ Answered s n s.lmessage.msg := by
  obtain ⟨k, tag, answer⟩ := shape.slot held
  obtain ⟨c, op, r, found, kind, made, ran⟩ := answer
  obtain ⟨d, mine, _, drew⟩ := shape.waiting stand
  have sameId : c.id = d.id := by
    rw [drew, ← same, made]
  obtain rfl : k = n :=
    uniq.ids (uniq.opened (.slot tag))
      (uniq.opened (.thread (i := i) (by rw [stand]; rfl))) found mine sameId
  exact ⟨tag, c, op, r, found, kind, made, ran⟩

/-- The promise stored under a reply's id is that of the call it answers. -/
theorem fulfil_own (shape : Shape s) (uniq : Unique s) {m : Tagged} {rest : List Tagged}
    (arrived : s.toClient = m :: rest) (answer : m.msg.operation = some .ASYNC_RESPONSE)
    (stored : s.asyncMessProm m.msg.id = some n) : m.call = some n ∧ Answered s n m.msg := by
  rcases shape.replies m (by simp [arrived]) with ⟨_, event⟩ | ⟨k, tag, reply⟩
  · rw [answer] at event
    cases event
  · obtain ⟨c, op, r, found, kind, made, ran⟩ := reply
    obtain ⟨d, mine, _, drew⟩ := shape.promises stored
    have underWay : k ∈ tags s.pipeline := by simp [State.pipeline, arrived, tag]
    have sameId : c.id = d.id := by
      rw [drew, made]
    obtain rfl : k = n :=
      uniq.ids (uniq.opened (.message underWay)) (uniq.opened (.promise stored)) found mine sameId
    exact ⟨tag, c, op, r, found, kind, made, ran⟩

/-! ## Where the messages are -/

/-- Pushed events belong to no call. -/
private theorem tags_of_untagged {pushed : List Tagged}
    (untagged : ∀ m ∈ pushed, m.call = none ∧ m.msg.operation = some .EVT_RESPONSE) :
    tags pushed = [] :=
  List.filterMap_eq_nil_iff.mpr fun m member => (untagged m member).1

/-- What a step does to the calls of the messages under way: it lets some go, or adds that
of the message it schedules. -/
theorem effect_tags (eff : Effect s a t) : (tags t.pipeline).Sublist (tags s.pipeline) ∨
    ∃ i n sync msg, s.threads i = .drawn sync n msg ∧ tags t.pipeline = tags s.pipeline ++ [n] ∧
      t.threads i = (if sync then .waiting n msg.id else .registering n msg.id) ∧
      t.lmessage = s.lmessage ∧ t.delivered = s.delivered := by
  cases eff with
  | @quiet a threads events pushed fault calls untagged noPromise =>
    simp [State.pipeline, tags_of_untagged untagged]
  | @schedule i n sync msg stand =>
    exact Or.inr ⟨i, n, sync, msg,
      stand, by simp [State.pipeline], Function.update_self .., rfl, rfl⟩
  | clientSend queued => simp [State.pipeline, queued]
  | serverReply arrived => simp [State.pipeline, arrived]
  | @serverDrop m rest r mem events arrived =>
    left
    simp only [State.pipeline, arrived, List.cons_append, tags_append, tags_cons]
    exact (List.sublist_append_right _ _).append_left _
  | serverSend queued => simp [State.pipeline, queued]
  | fulfil arrived | slot arrived | clientDrop arrived =>
    left
    simp only [State.pipeline, arrived, List.cons_append, tags_cons]
    exact List.sublist_append_right _ _
  | _ => exact Or.inl (List.Sublist.refl _)

/-- A message taken from the client's end was under way, and no longer is. -/
theorem tags_of_arrived (uniq : Unique s) {m : Tagged} {rest : List Tagged}
    (arrived : s.toClient = m :: rest) (tag : m.call = some n) :
    n ∈ tags s.pipeline ∧ n ∉ tags (rest ++ s.serverOutbound ++ (s.toServer ++ s.outbound)) := by
  have once := uniq.once
  simp only [State.pipeline, arrived, List.cons_append, tags_cons, tag, Option.toList_some,
    List.nodup_cons, List.nil_append] at once
  exact ⟨by simp [State.pipeline, arrived, tag], once.1⟩

private theorem located_step (uniq : Unique s) (eff : Effect s a t) : Located t := by
  rcases effect_tags eff with fewer | ⟨i, n, sync, msg, stand, grown, _, sameSlot, sameDelivered⟩
  · have once := uniq.once.sublist fewer
    cases eff with
    | @slot m rest arrived answer =>
      refine ⟨once, fun k under delivered => ?_, fun {k} tag =>
        (tags_of_arrived uniq arrived tag).2⟩
      rcases List.mem_append.mp delivered with before | now
      · exact uniq.undelivered k (fewer.subset under) before
      · exact (tags_of_arrived uniq arrived (by simpa using now)).2 under
    | take => exact ⟨once, uniq.undelivered, by simp⟩
    | _ =>
      exact ⟨once, fun k under => uniq.undelivered k (fewer.subset under),
        fun tag under => uniq.toLocated.slot tag (fewer.subset under)⟩
  · have unscheduled := uniq.drawn stand
    simp only [Scheduled, not_or] at unscheduled
    constructor
    · rw [grown]
      exact uniq.once.append (List.nodup_singleton n) (by simpa using unscheduled.1)
    · rw [grown, sameDelivered]
      intro k under
      rcases List.mem_append.mp under with before | new
      · exact uniq.undelivered k before
      · rw [List.mem_singleton.mp new]
        exact unscheduled.2.2.2
    · rw [grown, sameSlot]
      intro k tag under
      rcases List.mem_append.mp under with before | new
      · exact uniq.toLocated.slot tag before
      · exact unscheduled.2.1 (List.mem_singleton.mp new ▸ tag)

private theorem executed_once_step (shape : Shape s) (uniq : Unique s) (eff : Effect s a t) :
    ExecutedOnce t := by
  have old := uniq.executions
  cases eff with
  | @schedule i n sync msg stand =>
    refine ⟨old.once, fun k under => ?_⟩
    simp only [← List.append_assoc, tags_append, tags_cons, tags_nil, Option.toList_some,
      List.append_nil, List.mem_append, List.mem_singleton] at under
    rcases under with before | rfl
    · exact old.waiting k (by simpa using before)
    · exact fun executed => uniq.drawn stand (Or.inr (Or.inr (Or.inl executed)))
  | @clientSend m rest queued =>
    exact ⟨old.once, fun k under => old.waiting k (by simpa [queued] using under)⟩
  | @serverReply m rest kind op r mem arrived request answered =>
    obtain ⟨n, c, tag, found, made⟩ := shape.requests m (by simp [arrived])
    have once := uniq.once
    simp only [State.pipeline, arrived, tags_append, tags_cons, tag, Option.toList_some] at once
    have gone : n ∉ tags (rest ++ s.outbound) := by
      have right := once.of_append_right
      rw [List.append_assoc, List.singleton_append, List.nodup_cons] at right
      simpa using right.1
    have unexecuted := old.waiting n (by simp [arrived, tag])
    simp only [tag, Option.toList_some, List.map_cons, List.map_nil]
    refine ⟨?_, fun k under => ?_⟩
    · rw [List.map_append]
      exact old.once.append (List.nodup_singleton n) (by simpa using unexecuted)
    · have different : k ≠ n := fun same => gone (same ▸ under)
      have before := old.waiting k (by simp [arrived] at under ⊢; tauto)
      simpa [different] using before
  | @serverDrop m rest r mem events arrived =>
    exact ⟨old.once, fun k under => old.waiting k (by simp [arrived] at under ⊢; tauto)⟩
  | _ => exact { old with }

/-! ## What leads to a call -/

private theorem call_of_update {i j : Nat} {p : Phase}
    (inCall : (Function.update s.threads i p j).call = some n) :
    (j = i ∧ p.call = some n) ∨ (j ≠ i ∧ (s.threads j).call = some n) := by
  by_cases same : j = i
  · subst same
    exact Or.inl ⟨rfl, by simpa using inCall⟩
  · exact Or.inr ⟨same, by simpa [same] using inCall⟩

/-- A thread in a call stands where it stood, or has just drawn its id, or has just scheduled its
message. -/
theorem phase_before (eff : Effect s a t) : ∃ i, ∀ {j n}, (t.threads j).call = some n →
    t.threads j = s.threads j ∨
      (j = i ∧ n = s.calls.length ∧ n < t.calls.length ∧ ∃ sync msg,
        t.threads j = .drawn sync n msg) ∨
      ∃ sync msg, s.threads j = .drawn sync n msg ∧ t.delivered = s.delivered ∧
        t.threads j = if sync then .waiting n msg.id else .registering n msg.id := by
  cases eff with
  | @quiet a threads events pushed fault calls untagged noPromise =>
    exact ⟨0, fun {j n} inCall => Or.inl (calls j (Or.inr (by simp [inCall])))⟩
  | @draw a i c idle counter fresh =>
    refine ⟨i, fun {j n} inCall => ?_⟩
    rcases call_of_update inCall with ⟨rfl, new⟩ | ⟨other, _⟩
    · cases new
      exact Or.inr (Or.inl ⟨rfl, rfl, by simp, _, _, Function.update_self ..⟩)
    · exact Or.inl (Function.update_of_ne other ..)
  | @schedule i n sync msg stand =>
    refine ⟨0, fun {j k} inCall => ?_⟩
    rcases call_of_update inCall with ⟨rfl, new⟩ | ⟨other, _⟩
    · obtain rfl : n = k := by cases sync <;> exact Option.some.inj new
      exact Or.inr (Or.inr ⟨sync, msg, stand, rfl, Function.update_self ..⟩)
    · exact Or.inl (Function.update_of_ne other ..)
  | register | take =>
    refine ⟨0, fun inCall => Or.inl ?_⟩
    rcases call_of_update inCall with ⟨_, new⟩ | ⟨other, _⟩
    · cases new
    · exact Function.update_of_ne other ..
  | _ => exact ⟨0, fun _ => Or.inl rfl⟩

/-- A thread in a call was in it before, or has just drawn its id. -/
theorem thread_before (eff : Effect s a t) : ∃ i, ∀ {j n}, (t.threads j).call = some n →
    (s.threads j).call = some n ∨ (j = i ∧ n = s.calls.length ∧ n < t.calls.length) := by
  obtain ⟨i, before⟩ := phase_before eff
  refine ⟨i, fun {j n} inCall => ?_⟩
  rcases before inCall with same | ⟨drew, new, counted, _⟩ | ⟨sync, msg, stand, _⟩
  · exact Or.inl (same ▸ inCall)
  · exact Or.inr ⟨drew, new, counted⟩
  · exact Or.inl (by rw [stand]; rfl)

/-- A thread about to schedule was so before, or has just drawn its id. -/
private theorem drawn_before (eff : Effect s a t) {j : Nat} {sync : Bool} {msg : DefaultMessage}
    (stand : t.threads j = .drawn sync n msg) : s.threads j = .drawn sync n msg ∨
    n = s.calls.length := by
  obtain ⟨i, before⟩ := phase_before eff
  rcases before (n := n) (by rw [stand]; rfl)
    with same | ⟨_, new, _⟩ | ⟨sync', msg', _, _, scheduled⟩
  · exact Or.inl (same.symm.trans stand)
  · exact Or.inr new
  · rw [stand] at scheduled
    split at scheduled <;> cases scheduled

/-- A promise was stored before, or is that of the thread that has just left its call. -/
private theorem promise_before (eff : Effect s a t) {id : UInt64}
    (stored : t.asyncMessProm id = some n) :
    s.asyncMessProm id = some n ∨ ∃ i, (s.threads i).call = some n ∧ t.threads i = .idle := by
  cases eff with
  | @register i k _ stand =>
    rcases emplace_eq_some stored with before | ⟨_, rfl, _⟩
    · exact Or.inl before
    · exact Or.inr ⟨i, by rw [stand]; rfl, by simp⟩
  | fulfil => exact Or.inl (erase_eq_some stored).2
  | _ => exact Or.inl stored

/-- A message was scheduled before, or its thread has just scheduled it. -/
private theorem scheduled_before (eff : Effect s a t) (scheduled : Scheduled t n) :
    Scheduled s n ∨ ∃ i, (s.threads i).call = some n ∧
      ∀ sync msg, t.threads i ≠ .drawn sync n msg := by
  cases eff with
  | @quiet a threads events pushed fault calls untagged noPromise =>
    left
    simpa [Scheduled, State.pipeline, tags_of_untagged untagged] using scheduled
  | @schedule i k sync msg stand =>
    by_cases same : k = n
    · subst same
      exact Or.inr ⟨i, by rw [stand]; rfl, by cases sync <;> simp⟩
    · left
      simpa [Scheduled, State.pipeline, Ne.symm same] using scheduled
  | @take i k id old ret stand held same value =>
    left
    simp only [Scheduled, reduceCtorEq, false_or] at scheduled
    rcases scheduled with under | past
    · exact Or.inl under
    · exact Or.inr (Or.inr past)
  | clientSend queued => exact Or.inl (by simpa [Scheduled, State.pipeline, queued] using scheduled)
  | @serverReply m rest kind op r mem arrived request answered =>
    left
    have ran : (m.call.toList.map fun n => (⟨n, m.msg.payload, r⟩ : Execution)).map Execution.call =
        m.call.toList := by
      simp [Function.comp_def]
    simp only [Scheduled, State.pipeline, arrived, tags_append, tags_cons, tags_nil,
      List.append_nil, List.mem_append, List.map_append, ran] at scheduled ⊢
    tauto
  | @serverDrop m rest r mem events arrived =>
    left
    simp only [Scheduled, State.pipeline, arrived, tags_append, tags_cons,
      List.mem_append] at scheduled ⊢
    tauto
  | serverSend queued => exact Or.inl (by simpa [Scheduled, State.pipeline, queued] using scheduled)
  | fulfil arrived | slot arrived | clientDrop arrived =>
    left
    simp only [Scheduled, State.pipeline, arrived, tags_append, tags_cons, List.mem_append,
      Option.mem_toList] at scheduled ⊢
    tauto
  | _ => exact Or.inl scheduled

/-- Whatever leads to a call led to it before, or the call is new. -/
theorem holds_before (eff : Effect s a t) (held : Holds t n) :
    Holds s n ∨ (n = s.calls.length ∧ n < t.calls.length) := by
  cases held with
  | thread inCall =>
    obtain ⟨i, before⟩ := thread_before eff
    rcases before inCall with old | ⟨_, new⟩
    · exact Or.inl (.thread old)
    · exact Or.inr new
  | message underWay =>
    rcases effect_tags eff with fewer | ⟨i, k, sync, msg, stand, grown, _⟩
    · exact Or.inl (.message (fewer.subset underWay))
    · rw [grown] at underWay
      rcases List.mem_append.mp underWay with old | new
      · exact Or.inl (.message old)
      · exact Or.inl (.thread (i := i) (by rw [stand, List.mem_singleton.mp new]; rfl))
  | slot tag =>
    cases eff with
    | take => simp at tag
    | @slot m rest arrived answer =>
      have own : m.call = some n := tag
      exact Or.inl (.message (by simp [State.pipeline, arrived, own]))
    | _ => exact Or.inl (.slot tag)
  | promise stored =>
    rcases promise_before eff stored with old | ⟨i, inCall, _⟩
    · exact Or.inl (.promise old)
    · exact Or.inl (.thread inCall)

/-- The call that a step has ended. -/
private theorem done_of_ended {n : Nat} (ends : ∀ k, k ∈ t.done ↔ k ∈ s.done ∨ k = n)
    (opened : Open s n) (free : ¬Holds t n) : s.done ⊆ t.done ∧
    (t.done ⊆ s.done ∨ ∃ n, Open s n ∧ (∀ k ∈ t.done, k ∈ s.done ∨ k = n) ∧ ¬Holds t n) :=
  ⟨fun k member => (ends k).mpr (Or.inl member),
    Or.inr ⟨n, opened, fun k member => (ends k).mp member, free⟩⟩

/-- A step ends at most one call, and nothing leads to it any more. -/
theorem effect_done (shape : Shape s) (uniq : Unique s) (eff : Effect s a t) : s.done ⊆ t.done ∧
    (t.done ⊆ s.done ∨ ∃ n, Open s n ∧ (∀ k ∈ t.done, k ∈ s.done ∨ k = n) ∧ ¬Holds t n) := by
  cases eff with
  | @take i n id old ret stand held same value =>
    have own := (take_own shape uniq stand held same).1
    have inCall : (s.threads i).call = some n := by rw [stand]; rfl
    refine done_of_ended (fun k => ?_) (uniq.opened (.thread inCall)) fun leads => ?_
    · simp only [State.done, List.map_append, List.map_cons, List.map_nil, List.mem_append,
        List.mem_singleton]
      tauto
    · cases leads with
      | thread again =>
        rcases call_of_update again with ⟨_, new⟩ | ⟨other, old⟩
        · cases new
        · exact other (uniq.one old inCall)
      | message underWay => exact uniq.toLocated.slot own underWay
      | slot tag => simp at tag
      | promise stored => exact uniq.promise stored i inCall
  | @fulfil m rest n value arrived answer stored read =>
    have own := (fulfil_own shape uniq arrived answer stored).1
    refine done_of_ended (fun k => ?_) (uniq.opened (.promise stored)) fun leads => ?_
    · simp only [State.done, List.map_append, List.map_cons, List.map_nil, List.mem_append,
        List.mem_singleton]
      tauto
    · cases leads with
      | thread again => exact uniq.promise stored _ again
      | message underWay => exact (tags_of_arrived uniq arrived own).2 underWay
      | slot tag => exact uniq.toLocated.slot tag (tags_of_arrived uniq arrived own).1
      | promise again =>
        obtain ⟨other, before⟩ := erase_eq_some again
        obtain ⟨c, found, _, id⟩ := shape.promises before
        obtain ⟨d, found', _, id'⟩ := shape.promises stored
        rw [found] at found'
        cases found'
        exact other (id.symm.trans id')
  | _ => exact ⟨List.Subset.refl _, Or.inl (List.Subset.refl _)⟩

/-! ## The invariant -/

private theorem thread_owned_step (uniq : Unique s) (eff : Effect s a t) : ThreadOwned t := by
  obtain ⟨i, before⟩ := thread_before eff
  have old : ∀ {j n}, (s.threads j).call = some n → n ≠ s.calls.length := fun inCall =>
    Nat.ne_of_lt (uniq.opened (.thread inCall)).1
  constructor
  · intro j k n here there
    rcases before here with here | ⟨rfl, new, _⟩ <;> rcases before there with there | ⟨rfl, new', _⟩
    · exact uniq.one here there
    · exact absurd new' (old here)
    · exact absurd new (old there)
    · rfl
  · intro j sync n msg stand scheduled
    rcases drawn_before eff stand with drawn | new
    · rcases scheduled_before eff scheduled with was | ⟨k, inCall, behind⟩
      · exact uniq.drawn drawn was
      · obtain rfl : j = k := uniq.one (by rw [drawn]; rfl) inCall
        exact behind sync msg stand
    · rcases scheduled_before eff scheduled with was | ⟨k, inCall, _⟩
      · exact Nat.ne_of_lt (uniq.recorded n (Or.inr was)) new
      · exact old inCall new
  · intro id n stored j inCall
    have inCallBefore : n ≠ s.calls.length → (s.threads j).call = some n := fun known =>
      (before inCall).resolve_right fun new => known new.2.1
    rcases promise_before eff stored with was | ⟨k, left, idle⟩
    · exact uniq.promise was j (inCallBefore (Nat.ne_of_lt (uniq.opened (.promise was)).1))
    · obtain rfl : j = k := uniq.one (inCallBefore (old left)) left
      rw [idle] at inCall
      cases inCall

private theorem opened_step (shape : Shape s) (uniq : Unique s) (eff : Effect s a t)
    (held : Holds t n) :
    Open t n := by
  have unended : n ∈ t.done → n ∈ s.done := fun finished => by
    rcases (effect_done shape uniq eff).2 with same | ⟨k, _, one, gone⟩
    · exact same finished
    · exact (one n finished).resolve_right fun ended => gone (ended ▸ held)
  rcases holds_before eff held with before | ⟨new, counted⟩
  · have opened := uniq.opened before
    exact ⟨Nat.lt_of_lt_of_le opened.1 (effect_grows eff).1.length_le, fun finished =>
      opened.2 (unended finished)⟩
  · exact ⟨counted, fun finished => Nat.ne_of_lt (uniq.recorded n (Or.inl (unended finished))) new⟩

private theorem ids_step (shape : Shape s) (uniq : Unique s) (eff : Effect s a t)
    (fresh : Fresh s a)
    (here : Open t n) (there : Open t k) (found : t.calls[n]? = some c)
    (found' : t.calls[k]? = some d) (same : c.id = d.id) : n = k := by
  have unfinished : ∀ {j}, Open t j → j ∉ s.done := fun o finished =>
    o.2 ((effect_done shape uniq eff).1 finished)
  cases eff with
  | @draw a i new idle counter unheld =>
    have cases : ∀ {j e}, Open { s with calls := s.calls ++ [new] } j →
      (s.calls ++ [new])[j]? = some e →
        (Open s j ∧ s.calls[j]? = some e) ∨ (j = s.calls.length ∧ e = new) := by
      intro j e o found
      by_cases old : j < s.calls.length
      · rw [List.getElem?_append_left old] at found
        exact Or.inl ⟨⟨old, o.2⟩, found⟩
      · have last : j = s.calls.length := by
          have counted := o.1
          simp only [List.length_append, List.length_singleton] at counted
          omega
        subst last
        exact Or.inr ⟨rfl, by simpa using found.symm⟩
    rcases cases here found with ⟨o, f⟩ | ⟨last, rfl⟩ <;> rcases cases there found'
      with ⟨o', f'⟩ | ⟨last', rfl⟩
    · exact uniq.ids o o' f f' same
    · exact absurd same (unheld fresh n c o f)
    · exact absurd same.symm (unheld fresh k d o' f')
    · rw [last, last']
  | _ => exact uniq.ids ⟨here.1, unfinished here⟩ ⟨there.1, unfinished there⟩ found found' same

private theorem recorded_step (shape : Shape s) (uniq : Unique s) (eff : Effect s a t)
    (past : n ∈ t.done ∨ Scheduled t n) : n < t.calls.length := by
  suffices before : n < s.calls.length from Nat.lt_of_lt_of_le before (effect_grows eff).1.length_le
  rcases past with finished | scheduled
  · rcases (effect_done shape uniq eff).2 with same | ⟨k, opened, one, _⟩
    · exact uniq.recorded n (Or.inl (same finished))
    · rcases one n finished with old | rfl
      · exact uniq.recorded n (Or.inl old)
      · exact opened.1
  · rcases scheduled_before eff scheduled with old | ⟨i, inCall, _⟩
    · exact uniq.recorded n (Or.inr old)
    · exact (uniq.opened (.thread inCall)).1

/-- **Nothing is duplicated** by a step that draws no id held by an open call. -/
theorem unique_step (shape : Shape s) (uniq : Unique s) (eff : Effect s a t) (fresh : Fresh s a) :
    Unique t where
  toLocated := located_step uniq eff
  toThreadOwned := thread_owned_step uniq eff
  executions := executed_once_step shape uniq eff
  opened := opened_step shape uniq eff
  ids := ids_step shape uniq eff fresh
  recorded _ := recorded_step shape uniq eff

theorem start_unique (maxSub : UInt8) (nid serverNid : UInt64) :
    Unique (start maxSub nid serverNid) where
  once := by simp [start, State.pipeline]
  undelivered := by simp [start, State.pipeline]
  slot := by simp [start]
  one := by simp [start, Phase.call]
  drawn := by simp [start]
  promise := by simp [start]
  executions := ⟨by simp [start], by simp [start]⟩
  opened held := by cases held <;> simp_all [start, State.pipeline, Phase.call]
  ids := by simp [start]
  recorded := by simp [start, State.done, Scheduled, State.pipeline]

/-- Messages are what their calls made them, and nothing is duplicated. -/
structure Sound (s : State) : Prop where
  shape : Shape s
  uniq : Unique s

/-- **The runs in which every draw finds its id free are sound.** -/
theorem reachable_sound {cond : State → Action → Prop} (draws : ∀ s a, cond s a → Fresh s a)
    (reached : (system maxSub).ReachableBy cond s) : Sound s := by
  refine reached.invariant ?_ ?_
  · rintro _ ⟨nid, serverNid, rfl⟩
    exact ⟨start_shape .., start_unique ..⟩
  · intro s a t sound met ran
    have eff := effect_of_step ran
    exact ⟨shape_step sound.shape eff, unique_step sound.shape sound.uniq eff (draws s a met)⟩

/-! ## Runs that draw at most 2^64 ids -/

/-- The ids are drawn in a row. -/
def Counted (s : State) : Prop :=
  ∃ first : Nat, s.nid = UInt64.ofNat (first + s.calls.length) ∧
    ∀ n c, s.calls[n]? = some c → c.id = UInt64.ofNat (first + n)

theorem counted_step (counted : Counted s) (eff : Effect s a t) : Counted t := by
  obtain ⟨first, next, ids⟩ := counted
  cases eff with
  | @draw a i c idle counter fresh =>
    refine ⟨first, ?_, fun n d found => ?_⟩
    · simp only [next, List.length_append, List.length_singleton]
      rw [← Nat.add_assoc, UInt64.ofNat_add _ 1]
      rfl
    · by_cases old : n < s.calls.length
      · rw [List.getElem?_append_left old] at found
        exact ids n d found
      · rw [List.getElem?_append_right (by omega), List.getElem?_singleton] at found
        split at found
        · cases found
          rw [counter, next, show n = s.calls.length by omega]
        · cases found
  | _ => exact ⟨first, next, ids⟩

/-- Until 2^64 ids are drawn, every id drawn is free. -/
theorem fresh_of_few (reached : (system maxSub).Reachable s) (few : s.calls.length < 2 ^ 64) :
    Fresh s a := by
  have counted : Counted s := reached.invariant
    (by rintro _ ⟨nid, serverNid, rfl⟩; exact ⟨nid.toNat, by simp [start], by simp [start]⟩)
    fun _ _ _ counted ran => counted_step counted (effect_of_step ran)
  obtain ⟨first, next, ids⟩ := counted
  have free : ∀ n c, Open s n → s.calls[n]? = some c → c.id ≠ s.nid := by
    intro n c opened found same
    rw [ids n c found, next] at same
    have wraps := congrArg UInt64.toNat same
    simp only [UInt64.toNat_ofNat'] at wraps
    have earlier := opened.1
    omega
  cases a <;> first | exact free | trivial

end DCScan.Session
