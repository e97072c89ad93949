import Iwaya.Foundation.Surroundings

/-!
# Pipes

A pipe (`Effects.Pipe`) takes what is written at one end and hands it out at the other, in
order and in pieces of any size, with any amount on its way. Whoever holds an end of it can
go away; what was on its way is then lost from some point on.

A process writes to a pipe in calls, a piece at a time, and a call can fail with some of its
pieces written. As long as no call has failed, what is in the pipe is what the calls of the
process say, and of the call under way as much as was written (`Effects.Feeds`).
-/

namespace Effects

variable {β : Type}

/-- **A pipe**: all that was written to it, what was taken out of it, and what is on its
way. -/
structure Pipe (β : Type) where
  sent : List β
  taken : List β
  transit : List β
  closed : Bool
  /-- What comes out is what went in, from the beginning. -/
  inOrder : taken ++ transit <+: sent
  /-- Nothing is lost while the pipe is open. -/
  whole : closed = false → taken ++ transit = sent

namespace Pipe

/-- A pipe nobody has written to. -/
def fresh : Pipe β where
  sent := []
  taken := []
  transit := []
  closed := false
  inOrder := List.prefix_rfl
  whole _ := rfl

/-- A piece is written. -/
def put (p : Pipe β) (piece : List β) (h : p.closed = false) : Pipe β where
  sent := p.sent ++ piece
  taken := p.taken
  transit := p.transit ++ piece
  closed := p.closed
  inOrder := ⟨[], by rw [List.append_nil, ← List.append_assoc, p.whole h]⟩
  whole _ := by rw [← List.append_assoc, p.whole h]

/-- A piece is taken out. -/
def get (p : Pipe β) (piece rest : List β) (h : p.transit = piece ++ rest) : Pipe β where
  sent := p.sent
  taken := p.taken ++ piece
  transit := rest
  closed := p.closed
  inOrder := by
    have hp := p.inOrder
    rwa [h, ← List.append_assoc] at hp
  whole hc := by rw [List.append_assoc, ← h, p.whole hc]

/-- The end that is written to is closed. -/
def close (p : Pipe β) : Pipe β where
  sent := p.sent
  taken := p.taken
  transit := p.transit
  closed := true
  inOrder := p.inOrder
  whole h := by cases h

/-- The writer is gone, and of what was on its way only a part still arrives. -/
def sever (p : Pipe β) (kept : List β) (h : kept <+: p.transit) : Pipe β where
  sent := p.sent
  taken := p.taken
  transit := kept
  closed := true
  inOrder := ((List.prefix_append_right_inj p.taken).mpr h).trans p.inOrder
  whole hc := by cases hc

/-- Nothing of what was written is lost. -/
def Unbroken (p : Pipe β) : Prop := p.taken ++ p.transit = p.sent

/-- Nothing will come out any more. -/
def AtEnd (p : Pipe β) : Prop := p.closed = true ∧ p.transit = []

variable (p : Pipe β)

@[simp] theorem sent_put {piece : List β} (h : p.closed = false) :
    (p.put piece h).sent = p.sent ++ piece := rfl

/-- **What was taken out is a beginning of what was written.** -/
theorem taken_prefix : p.taken <+: p.sent := (List.prefix_append _ _).trans p.inOrder

theorem unbroken_of_open (h : p.closed = false) : p.Unbroken := p.whole h

theorem Unbroken.get (hp : p.Unbroken) {piece rest : List β} (h : p.transit = piece ++ rest) :
    (p.get piece rest h).Unbroken := by
  rw [Unbroken, h, ← List.append_assoc] at hp
  exact hp

/-- Closing the end that is written to loses nothing. -/
theorem Unbroken.close (hp : p.Unbroken) : p.close.Unbroken := hp

end Pipe

/-! ### Writing in calls -/

section Feeds

variable {Kind : Type} {Arg Ans : Kind → Type}

/-- What a call that is under way writes. -/
def waitingBytes (bytes : (k : Kind) → Arg k → List β) : Option (Waiting Arg) → List β
  | none => []
  | some w => bytes w.kind w.arg

/-- What the calls of a process wrote, if each of them succeeded. -/
def written (bytes : (k : Kind) → Arg k → List β) (tr : List (Event Arg Ans)) : List β :=
  tr.flatMap fun e => bytes e.kind e.arg

/-- No call that writes has failed. -/
def AllWritten (bytes : (k : Kind) → Arg k → List β) (ok : Event Arg Ans → Prop)
    (tr : List (Event Arg Ans)) : Prop :=
  ∀ e ∈ tr, bytes e.kind e.arg ≠ [] → ok e

/-- **A process feeds a pipe**: unless a call has failed, there is in the pipe what its calls
wrote, and the first `n` of what the call under way is writing. -/
structure Feeds (bytes : (k : Kind) → Arg k → List β) (ok : Event Arg Ans → Prop)
    (tr : List (Event Arg Ans)) (w : Option (Waiting Arg)) (sent : List β) (n : ℕ) : Prop where
  bound : n ≤ (waitingBytes bytes w).length
  sent_eq : AllWritten bytes ok tr → sent = written bytes tr ++ (waitingBytes bytes w).take n

variable {bytes : (k : Kind) → Arg k → List β} {ok : Event Arg Ans → Prop}
  {tr : List (Event Arg Ans)} {w w' : Option (Waiting Arg)} {sent : List β} {n : ℕ}

theorem written_append (t t' : List (Event Arg Ans)) :
    written bytes (t ++ t') = written bytes t ++ written bytes t' :=
  List.flatMap_append

/-- A process that has written nothing. -/
theorem feeds_fresh (h : written bytes tr = []) : Feeds bytes ok tr w [] 0 where
  bound := Nat.zero_le _
  sent_eq _ := by
    rw [h, List.take_zero]
    rfl

/-- One more piece of the call under way. -/
theorem Feeds.put (h : Feeds bytes ok tr w sent n) {piece rest : List β}
    (hp : (waitingBytes bytes w).drop n = piece ++ rest) :
    Feeds bytes ok tr w (sent ++ piece) (n + piece.length) where
  bound := by
    have hlength := congrArg List.length hp
    have hbound := h.bound
    rw [List.length_drop, List.length_append] at hlength
    omega
  sent_eq hall := by
    have htake : (waitingBytes bytes w).take (n + piece.length) =
        (waitingBytes bytes w).take n ++ piece := by
      rw [List.take_add, hp, List.take_left]
    rw [htake, h.sent_eq hall, List.append_assoc]

/-- **The call under way is answered**, and if it succeeded all of it was written. -/
theorem Feeds.answer {k : Kind} {x : Arg k} {ans : Ans k}
    (h : Feeds bytes ok tr (some ⟨k, x⟩) sent n)
    (hok : ok ⟨k, x, ans⟩ → n = (bytes k x).length) :
    Feeds bytes ok (tr ++ [⟨k, x, ans⟩]) w' sent 0 where
  bound := Nat.zero_le _
  sent_eq hall := by
    have htake : (bytes k x).take n = bytes k x := by
      by_cases hne : bytes k x = []
      · rw [hne, List.take_nil]
      · rw [hok (hall ⟨k, x, ans⟩ (List.mem_append_right _ (List.mem_singleton_self _)) hne),
          List.take_length]
    have hsent := h.sent_eq fun e he => hall e (List.mem_append_left _ he)
    rw [hsent, List.take_zero, List.append_nil, written_append, waitingBytes, htake]
    exact congrArg _ (List.append_nil _).symm

/-- A call that writes nothing is answered. -/
theorem Feeds.answer_of_nil {k : Kind} {x : Arg k} {ans : Ans k}
    (h : Feeds bytes ok tr (some ⟨k, x⟩) sent n) (hnil : bytes k x = []) :
    Feeds bytes ok (tr ++ [⟨k, x, ans⟩]) w' sent n := by
  have hbound := h.bound
  rw [waitingBytes, hnil] at hbound
  obtain rfl := Nat.le_zero.mp hbound
  exact h.answer fun _ => by rw [hnil, List.length_nil]

end Feeds

end Effects
