import Mathlib.Data.List.Infix
/-!
# Messages with one bit against repetition

A sender repeats its message until it hears that it has arrived, and gives each
message a bit that differs from the one before. The receiver takes a message
with the bit that it expects, then expects the other one, and drops what it has
taken before. The line holds one message, and whether the sender hears of an
arrival is not up to the receiver. `Agrees` lists where the two of them can be:
the receiver has what the sender is done with, give or take one message.
-/

namespace Toggle

/-- The two parties, and what is between them. -/
structure Pair (α : Type*) where
  /-- The messages that are still to be sent, the current one first. -/
  todo : List α
  /-- The bit of the current message. -/
  tx : Bool
  line : Option (Bool × α)
  /-- The bit that the receiver expects. -/
  rx : Bool
  taken : List α

variable {α : Type*} {s : Pair α} {all : List α}

/-- The sender puts its message on the line. -/
def Pair.send (s : Pair α) : Pair α := { s with line := s.todo.head?.map fun m => (s.tx, m) }

/-- The receiver looks at the message on the line. -/
def Pair.take (s : Pair α) : Pair α :=
  match s.line with
  | none => s
  | some (b, m) => if b = s.rx then { s with line := none, rx := !s.rx, taken := s.taken ++ [m] } else { s with line := none }

/-- The sender goes on to its next message. -/
def Pair.ack (s : Pair α) : Pair α := { s with todo := s.todo.tail, tx := !s.tx }

/-- The current message has arrived: it is on the line, or the receiver has looked at it. -/
def Pair.Arrived (s : Pair α) : Prop :=
  s.todo ≠ [] ∧ match s.line with
    | none => s.tx ≠ s.rx
    | some (b, _) => b = s.tx

/-- The states that two parties who begin with the same bit come to, `done` being what the sender is done with. -/
inductive Agrees (all : List α) (s : Pair α) : Prop
  /-- The receiver waits for the current message. -/
  | waiting {done : List α} : all = done ++ s.todo → s.line = none → s.tx = s.rx → s.taken = done → Agrees all s
  | sent {done rest : List α} {m : α} : all = done ++ s.todo → s.todo = m :: rest → s.line = some (s.tx, m) → s.tx = s.rx →
      s.taken = done → Agrees all s
  /-- The receiver has the current message, and the sender has not heard of it. -/
  | taken {done rest : List α} {m : α} : all = done ++ s.todo → s.todo = m :: rest → s.line = none → s.tx = !s.rx →
      s.taken = done ++ [m] → Agrees all s
  | repeated {done rest : List α} {m : α} : all = done ++ s.todo → s.todo = m :: rest → s.line = some (s.tx, m) → s.tx = !s.rx →
      s.taken = done ++ [m] → Agrees all s
  /-- The sender has gone on, while its last message is still on the line. -/
  | heard {done : List α} {m : α} : all = done ++ [m] ++ s.todo → s.line = some (!s.tx, m) → s.tx = !s.rx → s.taken = done →
      Agrees all s
  | heard_again {done : List α} {m : α} : all = done ++ s.todo → s.line = some (!s.tx, m) → s.tx = s.rx → s.taken = done →
      Agrees all s

theorem Agrees.send (h : Agrees all s) (hline : s.line = none) : Agrees all s.send := by
  cases h with
  | waiting hall _ hbit htaken =>
    cases htodo : s.todo with
    | nil => exact .waiting hall (by simp [Pair.send, htodo]) hbit htaken
    | cons m rest => exact .sent hall htodo (by simp [Pair.send, htodo]) hbit htaken
  | taken hall htodo _ hbit htaken => exact .repeated hall htodo (by simp [Pair.send, htodo]) hbit htaken
  | sent _ _ h | repeated _ _ h | heard _ h | heard_again _ h =>
    rw [hline] at h
    cases h

theorem Agrees.take (h : Agrees all s) : Agrees all s.take := by
  cases h with
  | waiting hall hline hbit htaken =>
    have heq : s.take = s := by simp [Pair.take, hline]
    rw [heq]
    exact .waiting hall hline hbit htaken
  | taken hall htodo hline hbit htaken =>
    have heq : s.take = s := by simp [Pair.take, hline]
    rw [heq]
    exact .taken hall htodo hline hbit htaken
  | sent hall htodo hline hbit htaken =>
    rename_i done rest m
    have heq : s.take = { s with line := none, rx := !s.rx, taken := s.taken ++ [m] } := by simp [Pair.take, hline, hbit]
    rw [heq]
    exact .taken hall htodo rfl (by simp [hbit]) (by simp [htaken])
  | repeated hall htodo hline hbit htaken =>
    have heq : s.take = { s with line := none } := by simp [Pair.take, hline, hbit]
    rw [heq]
    exact .taken hall htodo rfl hbit htaken
  | heard hall hline hbit htaken =>
    rename_i done m
    have heq : s.take = { s with line := none, rx := !s.rx, taken := s.taken ++ [m] } := by simp [Pair.take, hline, hbit]
    rw [heq]
    exact .waiting hall rfl hbit (by simp [htaken])
  | heard_again hall hline hbit htaken =>
    have heq : s.take = { s with line := none } := by simp [Pair.take, hline, hbit]
    rw [heq]
    exact .waiting hall rfl hbit htaken

theorem Agrees.ack (h : Agrees all s) (harrived : s.Arrived) : Agrees all s.ack := by
  obtain ⟨-, hline'⟩ := harrived
  have hnext : ∀ {done rest : List α} {m : α}, all = done ++ s.todo → s.todo = m :: rest → all = done ++ [m] ++ s.ack.todo := by
    intro done rest m hall htodo
    rw [hall, htodo, Pair.ack, htodo, List.tail_cons, List.append_assoc, List.singleton_append]
  cases h with
  | waiting _ hline hbit =>
    rw [hline] at hline'
    exact absurd hbit hline'
  | sent hall htodo hline hbit htaken =>
    exact .heard (hnext hall htodo) (by simp [Pair.ack, hline]) (by simp [Pair.ack, hbit]) htaken
  | taken hall htodo hline hbit htaken =>
    exact .waiting (hnext hall htodo) hline (by simp [Pair.ack, hbit]) htaken
  | repeated hall htodo hline hbit htaken =>
    rename_i done rest m
    exact .heard_again (m := m) (hnext hall htodo) (by simp [Pair.ack, hline]) (by simp [Pair.ack, hbit]) htaken
  | heard _ hline | heard_again _ hline =>
    rw [hline] at hline'
    simp at hline'

/-- A further message to be sent. -/
theorem Agrees.submit (h : Agrees all s) (m : α) : Agrees (all ++ [m]) { s with todo := s.todo ++ [m] } := by
  cases h with
  | waiting hall hline hbit htaken => exact .waiting (by rw [hall, List.append_assoc]) hline hbit htaken
  | sent hall htodo hline hbit htaken =>
    exact .sent (by rw [hall, List.append_assoc]) (by rw [htodo]; rfl) hline hbit htaken
  | taken hall htodo hline hbit htaken =>
    exact .taken (by rw [hall, List.append_assoc]) (by rw [htodo]; rfl) hline hbit htaken
  | repeated hall htodo hline hbit htaken =>
    exact .repeated (by rw [hall, List.append_assoc]) (by rw [htodo]; rfl) hline hbit htaken
  | heard hall hline hbit htaken => exact .heard (by rw [hall, List.append_assoc]) hline hbit htaken
  | heard_again hall hline hbit htaken => exact .heard_again (by rw [hall, List.append_assoc]) hline hbit htaken

/-- A message that the receiver has not taken gives place to another one. -/
theorem Agrees.replace (h : Agrees all s) (hline : s.line = none) {old : α} (htodo : s.todo = [old])
    (huntaken : s.taken.length < all.length) (new : α) : Agrees (all.dropLast ++ [new]) { s with todo := [new] } := by
  cases h with
  | waiting hall _ hbit htaken =>
    have hdrop : all.dropLast = s.taken := by rw [hall, htodo, List.dropLast_concat, htaken]
    rw [hdrop]
    exact .waiting rfl hline hbit rfl
  | taken hall htodo' _ _ htaken =>
    obtain ⟨rfl, -⟩ := List.cons.inj (htodo.symm.trans htodo')
    rw [hall, htodo, htaken] at huntaken
    exact absurd huntaken (Nat.lt_irrefl _)
  | sent _ _ h | repeated _ _ h | heard _ h | heard_again _ h =>
    rw [hline] at h
    cases h

/-- What the receiver has taken are the first messages, each of them once. -/
theorem Agrees.in_order (h : Agrees all s) : s.taken <+: all := by
  cases h with
  | waiting hall _ _ htaken | heard_again hall _ _ htaken => exact ⟨_, by rw [hall, htaken]⟩
  | sent hall _ _ _ htaken => exact ⟨_, by rw [hall, htaken]⟩
  | taken hall htodo _ _ htaken | repeated hall htodo _ _ htaken => exact ⟨_, by rw [hall, htaken, htodo, List.append_assoc]; rfl⟩
  | heard hall _ _ htaken => exact ⟨_, by rw [hall, htaken, List.append_assoc]⟩

/-- When the line is empty, the receiver has everything that the sender is done with. -/
theorem Agrees.complete (h : Agrees all s) (hline : s.line = none) : ∃ done, all = done ++ s.todo ∧ done <+: s.taken := by
  cases h with
  | waiting hall _ _ htaken => exact ⟨_, hall, by rw [htaken]⟩
  | taken hall _ _ _ htaken => exact ⟨_, hall, ⟨_, htaken.symm⟩⟩
  | sent _ _ h | repeated _ _ h | heard _ h | heard_again _ h =>
    rw [hline] at h
    cases h

end Toggle
