import Mathlib.Data.List.Nodup

/-!
Linearizability of the calls of a sequential object.

A history records which calls were made and which have been answered. An order of calls linearizes it
when it answers every answered call as the object would in that order, and puts a call behind all those
that had been answered when it was made. The four lemmas that start with `linearizes` follow a history
as it grows: from the empty one, by a call, by a call that takes effect and by answers.
-/

namespace DCScan.Lib

/-- An object whose operations run one after the other. -/
structure SequentialObject (Op Answer : Type) where
  State : Type
  init : State
  apply : State → Op → State × Answer

namespace SequentialObject

variable {Op Answer : Type} (obj : SequentialObject Op Answer)

/-- The object behind some operations. -/
def after (ops : List Op) : obj.State := ops.foldl (fun s op => (obj.apply s op).1) obj.init

/-- What an operation answers behind others. -/
def answer (before : List Op) (op : Op) : Answer := (obj.apply (obj.after before) op).2

theorem after_concat (ops : List Op) (op : Op) :
    obj.after (ops ++ [op]) = (obj.apply (obj.after ops) op).1 := by
  rw [after, List.foldl_concat, after]

end SequentialObject

inductive CallEvent (Op Answer : Type) where
  | invoke (n : Nat) (op : Op)
  | respond (n : Nat) (r : Answer)

/-- The call `n` has a place in the order at which the object answers `r`. -/
def AnsweredIn {Op Answer : Type} (obj : SequentialObject Op Answer) (order : List (Nat × Op))
    (n : Nat) (r : Answer) : Prop :=
  ∃ before op later, order = before ++ (n, op) :: later ∧ r = obj.answer (before.map Prod.snd) op

/-- The calls of a history can be put into this order. -/
structure Linearizes {Op Answer : Type} (obj : SequentialObject Op Answer)
    (history : List (CallEvent Op Answer)) (order : List (Nat × Op)) : Prop where
  once : (order.map Prod.fst).Nodup
  invoked : ∀ n op, (n, op) ∈ order → .invoke n op ∈ history
  answered : ∀ n r, .respond n r ∈ history → AnsweredIn obj order n r
  /-- What was answered before a call was made comes before it. -/
  realTime : ∀ past n op rest, history = past ++ .invoke n op :: rest → ∀ m r, .respond m r ∈ past →
    ∀ before op' later, order = before ++ (n, op') :: later → m ∈ before.map Prod.fst

/-- A history that some order linearizes. -/
def Linearizable {Op Answer : Type} (obj : SequentialObject Op Answer)
    (history : List (CallEvent Op Answer)) : Prop :=
  ∃ order, Linearizes obj history order

section

variable {Op Answer : Type} {obj : SequentialObject Op Answer}
variable {history : List (CallEvent Op Answer)} {order : List (Nat × Op)}
variable {n : Nat} {op : Op} {r : Answer}

theorem AnsweredIn.member (answered : AnsweredIn obj order n r) : n ∈ order.map Prod.fst := by
  obtain ⟨before, op, later, rfl, _⟩ := answered
  simp

/-- Calls that take effect later do not change an answer. -/
theorem AnsweredIn.append (answered : AnsweredIn obj order n r) (more : List (Nat × Op)) :
    AnsweredIn obj (order ++ more) n r := by
  obtain ⟨before, op, later, rfl, rfl⟩ := answered
  exact ⟨before, op, later ++ more, by simp, rfl⟩

/-- An element of a list with one more at its end, and what comes before it. -/
private theorem split_concat {α : Type} {xs before later : List α} {x y : α}
    (split : xs ++ [x] = before ++ y :: later) :
    (xs = before ∧ x = y) ∨ ∃ rest, xs = before ++ y :: rest := by
  rcases List.eq_nil_or_concat later with rfl | ⟨rest, z, rfl⟩
  · obtain ⟨front, last⟩ := List.append_inj' split rfl
    exact .inl ⟨front, List.singleton_inj.mp last⟩
  · rw [List.concat_eq_append, ← List.cons_append, ← List.append_assoc] at split
    exact .inr ⟨rest, (List.append_inj' split rfl).1⟩

theorem linearizes_nil (obj : SequentialObject Op Answer) : Linearizes obj [] [] where
  once := List.nodup_nil
  invoked := nofun
  answered := nofun
  realTime := by simp

/-- A call is made that has not been made before. -/
theorem linearizes_invoke (lin : Linearizes obj history order) (fresh : n ∉ order.map Prod.fst) :
    Linearizes obj (history ++ [.invoke n op]) order where
  once := lin.once
  invoked m op' member := List.mem_append_left _ (lin.invoked m op' member)
  answered m r' responded := by
    rcases List.mem_append.mp responded with before | new
    · exact lin.answered m r' before
    · cases List.mem_singleton.mp new
  realTime past m op' rest split k r' responded before op'' later placed := by
    rcases split_concat split with ⟨rfl, new⟩ | ⟨rest', earlier⟩
    · cases new
      exact absurd (by simp [placed]) fresh
    · exact lin.realTime past m op' rest' earlier k r' responded before op'' later placed

/-- A call that was made takes effect. -/
theorem linearizes_effect (lin : Linearizes obj history order) (fresh : n ∉ order.map Prod.fst)
    (made : .invoke n op ∈ history) : Linearizes obj history (order ++ [(n, op)]) where
  once := by
    rw [List.map_append, List.map_singleton]
    exact lin.once.append (List.nodup_singleton n) (by simpa using fresh)
  invoked m op' member := by
    rcases List.mem_append.mp member with before | new
    · exact lin.invoked m op' before
    · cases List.mem_singleton.mp new
      exact made
  answered m r' responded := (lin.answered m r' responded).append _
  realTime past m op' rest split k r' responded before op'' later placed := by
    rcases split_concat placed with ⟨rfl, _⟩ | ⟨later', earlier⟩
    · refine (lin.answered k r' ?_).member
      rw [split]
      exact List.mem_append_left _ responded
    · exact lin.realTime past m op' rest split k r' responded before op'' later' earlier

/-- A call is answered that has its place in the order. -/
theorem linearizes_respond (lin : Linearizes obj history order) (answered : AnsweredIn obj order n r) :
    Linearizes obj (history ++ [.respond n r]) order where
  once := lin.once
  invoked m op' member := List.mem_append_left _ (lin.invoked m op' member)
  answered m r' responded := by
    rcases List.mem_append.mp responded with before | new
    · exact lin.answered m r' before
    · cases List.mem_singleton.mp new
      exact answered
  realTime past m op' rest split := by
    rcases split_concat split with ⟨_, new⟩ | ⟨rest', earlier⟩
    · cases new
    · exact lin.realTime past m op' rest' earlier

theorem linearizes_responds (rs : List (Nat × Answer)) (lin : Linearizes obj history order)
    (answered : ∀ x ∈ rs, AnsweredIn obj order x.1 x.2) :
    Linearizes obj (history ++ rs.map fun x => .respond x.1 x.2) order := by
  induction rs generalizing history with
  | nil => simpa using lin
  | cons x rs ih =>
    have first := linearizes_respond lin (answered x List.mem_cons_self)
    simpa using ih first fun y member => answered y (List.mem_cons_of_mem _ member)

end

end DCScan.Lib
