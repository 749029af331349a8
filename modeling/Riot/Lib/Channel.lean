import Mathlib.Data.List.Basic
import Mathlib.Logic.Function.Basic
import Mathlib.Tactic.Common

/-
  Message channels with a queue, direct hand-over and
  blocked senders.

  Every node has one incoming channel.  A message is
  accepted when its sender is free to go on, and delivered
  when the receiver's call returns with it.
-/

----
-- Channels
----

/-
  A message with its sender and the number of the sender's
  call.  Messages from outside have no sender.
-/
structure Tag (τ μ : Type) where
  sender : Option τ
  seq : Nat
  msg : μ

/-
  What a node is doing: nothing, sending to a target that
  has not accepted yet, waiting for a message, or about to
  return with one.
-/
inductive Mode (τ μ : Type) where
  | idle
  | sending (target : τ) (tag : Tag τ μ)
  | receiving
  | holding (m : μ)

/- Queues, nodes, and the history of all channels. -/
@[ext]
structure Channels (τ μ : Type) where
  queue : τ → List μ
  mode : τ → Mode τ μ
  sent : Option τ → Nat
  accepted : τ → List (Tag τ μ)
  delivered : τ → List μ

namespace Channels

variable {τ μ : Type}

/- The message that a node is about to return with. -/
def held
    (c : Channels τ μ) (v : τ) : List μ :=
  match c.mode v with
  | .holding m => [m]
  | _ => []

/- Nobody sends while its last call has not ended. -/
def Free
    (c : Channels τ μ) (sender : Option τ) : Prop :=
  ∀ t, sender = some t → c.mode t = .idle

/- The tag of the sender's next message. -/
def nextTag
    (c : Channels τ μ) (sender : Option τ) (m : μ) : Tag τ μ :=
  ⟨sender, c.sent sender, m⟩

/- Calls below this number have been decided. -/
def decided
    (c : Channels τ μ) : Option τ → Nat
| none => c.sent none
| some t =>
  match c.mode t with
  | .sending _ tag => tag.seq
  | _ => c.sent (some t)

variable [DecidableEq τ]

/- One more call of a sender. -/
def count
    (c : Channels τ μ) (sender : Option τ) : Channels τ μ :=
  { c with sent := Function.update c.sent sender (c.sent sender + 1) }

/- The target accepts a message. -/
def accept
    (c : Channels τ μ) (v : τ) (tag : Tag τ μ) : Channels τ μ :=
  { c with accepted := Function.update c.accepted v (c.accepted v ++ [tag]) }

/- The target returns with a message. -/
def deliver
    (c : Channels τ μ) (v : τ) (m : μ) : Channels τ μ :=
  { c with delivered := Function.update c.delivered v (c.delivered v ++ [m]) }

/- A node changes its mode. -/
def setMode
    (c : Channels τ μ) (t : τ) (mode : Mode τ μ) : Channels τ μ :=
  { c with mode := Function.update c.mode t mode }

/- A queue changes. -/
def setQueue
    (c : Channels τ μ) (v : τ) (l : List μ) : Channels τ μ :=
  { c with queue := Function.update c.queue v l }

/- The steps of the channels. -/
inductive Step : Channels τ μ → Channels τ μ → Prop
| skip
    (c : Channels τ μ) :
    Step c c
| fail
    (c : Channels τ μ) (sender : Option τ)
    (hFree : c.Free sender) :
    Step c (c.count sender)
| enqueue
    (c : Channels τ μ) (sender : Option τ) (v : τ) (m : μ)
    (hFree : c.Free sender)
    (hNot : c.mode v ≠ .receiving) :
    Step c (((c.count sender).setQueue v (c.queue v ++ [m])).accept v (c.nextTag sender m))
| block
    (c : Channels τ μ) (t v : τ) (m : μ)
    (hFree : c.mode t = .idle) :
    Step c ((c.count (some t)).setMode t (.sending v (c.nextTag (some t) m)))
| hand
    (c : Channels τ μ) (sender : Option τ) (v : τ) (m : μ)
    (hFree : c.Free sender)
    (hWaits : c.mode v = .receiving) :
    Step c (((c.count sender).setMode v (.holding m)).accept v (c.nextTag sender m))
| take
    (c : Channels τ μ) (v : τ) (m : μ) (rest : List μ)
    (hIdle : c.mode v = .idle)
    (hQueue : c.queue v = m :: rest) :
    Step c ((c.setQueue v rest).deliver v m)
| refill
    (c : Channels τ μ) (v x : τ) (m : μ) (rest : List μ) (tag : Tag τ μ)
    (hIdle : c.mode v = .idle)
    (hQueue : c.queue v = m :: rest)
    (hSender : c.mode x = .sending v tag) :
    Step c ((((c.setQueue v (rest ++ [tag.msg])).deliver v m).setMode x .idle).accept v tag)
| direct
    (c : Channels τ μ) (v x : τ) (tag : Tag τ μ)
    (hIdle : c.mode v = .idle)
    (hQueue : c.queue v = [])
    (hSender : c.mode x = .sending v tag) :
    Step c (((c.deliver v tag.msg).setMode x .idle).accept v tag)
| wait
    (c : Channels τ μ) (v : τ)
    (hIdle : c.mode v = .idle)
    (hQueue : c.queue v = []) :
    Step c (c.setMode v .receiving)
| finish
    (c : Channels τ μ) (v : τ) (m : μ)
    (hHolds : c.mode v = .holding m) :
    Step c ((c.deliver v m).setMode v .idle)

end Channels

----
-- Order of Acceptance
----

namespace Channels

variable {τ μ : Type} {c c' : Channels τ μ} {sender : Option τ}

/- Blocked senders have sent nothing since. -/
def Tagged
    (c : Channels τ μ) : Prop :=
  ∀ t v tag, c.mode t = .sending v tag → tag.sender = some t ∧ tag.seq + 1 = c.sent (some t)

/- Each sender's messages are accepted in order of sending. -/
def Ordered
    (c : Channels τ μ) : Prop :=
  ∀ v, (∀ a ∈ c.accepted v, a.seq < c.decided a.sender) ∧
      (c.accepted v).Pairwise (fun a b => a.sender = b.sender → a.seq < b.seq)

/- Without a new acceptance the order is kept. -/
theorem Ordered.of_same
    (hOrdered : c.Ordered) (hSame : c'.accepted = c.accepted)
    (hDecided : ∀ sender, c.decided sender ≤ c'.decided sender) :
    c'.Ordered := by
  intro v
  rw [hSame]
  refine ⟨?_, (hOrdered v).2⟩
  intro a ha
  exact Nat.lt_of_lt_of_le ((hOrdered v).1 a ha) (hDecided _)

/- A message is accepted after the earlier ones. -/
theorem Ordered.of_accept
    [DecidableEq τ] {v : τ} {tag : Tag τ μ} (hOrdered : c.Ordered)
    (hAccepted : c'.accepted = Function.update c.accepted v (c.accepted v ++ [tag]))
    (hDecided : ∀ sender, c.decided sender ≤ c'.decided sender)
    (hEarlier : c.decided tag.sender ≤ tag.seq)
    (hNow : tag.seq < c'.decided tag.sender) :
    c'.Ordered := by
  intro u
  rw [hAccepted]
  by_cases hEq : u = v
  · subst hEq
    rw [Function.update_self]
    constructor
    · intro a ha
      rcases List.mem_append.mp ha with hOld | hNew
      · exact Nat.lt_of_lt_of_le ((hOrdered u).1 a hOld) (hDecided _)
      · rw [List.mem_singleton] at hNew
        rw [hNew]
        exact hNow
    · rw [List.pairwise_append]
      refine ⟨(hOrdered u).2, List.pairwise_singleton _ _, ?_⟩
      intro a ha b hb hSender
      rw [List.mem_singleton] at hb
      subst hb
      have hLess := (hOrdered u).1 a ha
      rw [hSender] at hLess
      exact Nat.lt_of_lt_of_le hLess hEarlier
  · rw [Function.update_of_ne hEq]
    refine ⟨?_, (hOrdered u).2⟩
    intro a ha
    exact Nat.lt_of_lt_of_le ((hOrdered u).1 a ha) (hDecided _)

/- A node that does not send has decided all its calls. -/
theorem decided_eq
    {t : τ} (hNot : ∀ v tag, c.mode t ≠ .sending v tag) :
    c.decided (some t) = c.sent (some t) := by
  cases hMode : c.mode t with
  | sending v tag => exact (hNot v tag hMode).elim
  | _ => simp only [decided, hMode]

/- So has a sender that is free to send. -/
theorem Free.decided_eq
    (hFree : c.Free sender) :
    c.decided sender = c.sent sender := by
  cases sender with
  | none => rfl
  | some t =>
    apply Channels.decided_eq
    intro v tag hMode
    rw [hFree t rfl] at hMode
    cases hMode

/- A blocked sender's call is not decided. -/
theorem decided_of_sending
    {t v : τ} {tag : Tag τ μ} (hMode : c.mode t = .sending v tag) :
    c.decided (some t) = tag.seq := by
  simp only [decided, hMode]

variable [DecidableEq τ]

/- The channels after one more call, in any mode. -/
theorem Tagged.count
    (hTagged : c.Tagged) (hFree : c.Free sender) :
    (c.count sender).Tagged := by
  intro t v tag hMode
  rcases hTagged t v tag hMode with ⟨hSender, hSeq⟩
  refine ⟨hSender, ?_⟩
  have hNe : some t ≠ sender := by
    rintro rfl
    have hIdle := hFree t rfl
    have hSending : c.mode t = .sending v tag := hMode
    rw [hIdle] at hSending
    cases hSending
  exact hSeq.trans (Function.update_of_ne hNe _ _).symm

/- One more call of a free sender is decided at once. -/
theorem decided_count
    (hFree : c.Free sender) (other : Option τ) :
    (c.count sender).decided other = if other = sender then c.sent sender + 1 else
        c.decided other := by
  by_cases hEq : other = sender
  · subst hEq
    have hFree' : (c.count other).Free other := hFree
    rw [if_pos rfl, hFree'.decided_eq]
    exact Function.update_self _ _ _
  · rw [if_neg hEq]
    cases other with
    | none => exact Function.update_of_ne hEq _ _
    | some t =>
      cases hMode : c.mode t with
      | sending v tag => simp only [decided, count, hMode]
      | _ =>
        simp only [decided, count, hMode]
        exact Function.update_of_ne hEq _ _

/- One more call decides no less. -/
theorem decided_le_count
    (hFree : c.Free sender) (other : Option τ) :
    c.decided other ≤ (c.count sender).decided other := by
  rw [decided_count hFree]
  split
  · rename_i hEq
    rw [hEq, hFree.decided_eq]
    omega
  · exact Nat.le_refl _

/- A mode without a message to send decides no less. -/
theorem decided_le_setMode
    {x : τ} {mode : Mode τ μ} (hTagged : c.Tagged)
    (hMode : ∀ v tag, mode ≠ .sending v tag) (other : Option τ) :
    c.decided other ≤ (c.setMode x mode).decided other := by
  cases other with
  | none => exact Nat.le_refl _
  | some t =>
    by_cases hEq : t = x
    · subst hEq
      have hAfter : (c.setMode t mode).decided (some t) = c.sent (some t) := by
        apply decided_eq
        intro v tag hSending
        have hSelf : (c.setMode t mode).mode t = mode := Function.update_self _ _ _
        exact hMode v tag (hSelf.symm.trans hSending)
      rw [hAfter]
      cases hNow : c.mode t with
      | sending v tag =>
        rw [decided_of_sending hNow]
        have hSeq := (hTagged t v tag hNow).2
        omega
      | _ =>
        simp only [decided, hNow]
        exact Nat.le_refl _
    · simp only [decided, setMode, Function.update_of_ne hEq]
      exact Nat.le_refl _

/- Such a mode keeps the tags of the others. -/
theorem Tagged.setMode
    {x : τ} {mode : Mode τ μ} (hTagged : c.Tagged)
    (hMode : ∀ v tag, mode ≠ .sending v tag) :
    (c.setMode x mode).Tagged := by
  intro t v tag hSending
  unfold Channels.setMode at hSending
  dsimp only at hSending
  by_cases hEq : t = x
  · subst hEq
    rw [Function.update_self] at hSending
    exact (hMode v tag hSending).elim
  · rw [Function.update_of_ne hEq] at hSending
    exact hTagged t v tag hSending

end Channels

----
-- Conservation
----

namespace Channels

variable {τ μ : Type} {c c' : Channels τ μ}

/-
  The accepted messages of a node are those delivered, then
  the one it is about to return with, then the queued ones.
  A node that waits has an empty queue.
-/
def Conserved
    (c : Channels τ μ) (v : τ) : Prop :=
  (c.accepted v).map Tag.msg = c.delivered v ++ c.held v ++ c.queue v ∧
    (c.mode v = .receiving → c.queue v = [])

/- What every step keeps. -/
structure Inv (c : Channels τ μ) : Prop where
  tagged : c.Tagged
  ordered : c.Ordered
  conserved : ∀ v, c.Conserved v

/- A node that is not touched keeps its messages. -/
theorem Conserved.congr
    {v : τ} (hConserved : c.Conserved v) (hAccepted : c'.accepted v = c.accepted v)
    (hDelivered : c'.delivered v = c.delivered v) (hQueue : c'.queue v = c.queue v)
    (hHeld : c'.held v = c.held v)
    (hMode : c'.mode v = .receiving → c.mode v = .receiving) :
    c'.Conserved v := by
  unfold Conserved
  rw [hAccepted, hDelivered, hQueue, hHeld]
  exact ⟨hConserved.1, fun h => hConserved.2 (hMode h)⟩

/- A mode decides what is held. -/
theorem held_congr
    {v : τ} (hMode : c'.mode v = c.mode v) :
    c'.held v = c.held v := by
  unfold held
  rw [hMode]

/- A node that holds nothing. -/
theorem held_eq_nil
    {v : τ} (hNot : ∀ m, c.mode v ≠ .holding m) :
    c.held v = [] := by
  cases hMode : c.mode v with
  | holding m => exact (hNot m hMode).elim
  | _ => simp only [held, hMode]

variable [DecidableEq τ]

/- A node that goes from one mode without a message to another. -/
theorem held_setMode
    {x : τ} {mode : Mode τ μ} (hBefore : ∀ m, c.mode x ≠ .holding m)
    (hAfter : ∀ m, mode ≠ .holding m) (v : τ) :
    (c.setMode x mode).held v = c.held v := by
  by_cases hEq : v = x
  · subst hEq
    have hSelf : (c.setMode v mode).mode v = mode := Function.update_self _ _ _
    rw [held_eq_nil hBefore, held_eq_nil]
    rw [hSelf]
    exact hAfter
  · apply held_congr
    exact Function.update_of_ne hEq _ _

/- A node does not start to wait by changing to another mode. -/
theorem receiving_of_setMode
    {u x : τ} {mode : Mode τ μ} (hMode : mode ≠ .receiving)
    (hWaits : (c.setMode x mode).mode u = .receiving) :
    c.mode u = .receiving := by
  unfold setMode at hWaits
  dsimp only at hWaits
  by_cases hEq : u = x
  · subst hEq
    rw [Function.update_self] at hWaits
    exact (hMode hWaits).elim
  · rw [Function.update_of_ne hEq] at hWaits
    exact hWaits

namespace Inv

variable {sender : Option τ} {v : τ} {m : μ} {tag : Tag τ μ}

section

variable (hInv : c.Inv)

include hInv

/- A failed call. -/
theorem fail
    (hFree : c.Free sender) :
    (c.count sender).Inv where
  tagged := hInv.tagged.count hFree
  ordered := hInv.ordered.of_same rfl (decided_le_count hFree)
  conserved := fun v =>
    (hInv.conserved v).congr rfl rfl rfl rfl (fun h => h)

/- A message enters the queue. -/
theorem enqueue
    (hFree : c.Free sender) (hNot : c.mode v ≠ .receiving) :
    (((c.count sender).setQueue v (c.queue v ++ [m])).accept v (c.nextTag sender m)).Inv where
  tagged := hInv.tagged.count hFree
  ordered := by
    refine hInv.ordered.of_accept rfl (decided_le_count hFree) ?_ ?_
    · exact Nat.le_of_eq hFree.decided_eq
    · have hNow := decided_count hFree sender
      rw [if_pos rfl] at hNow
      exact Nat.lt_of_lt_of_eq (Nat.lt_succ_self _) hNow.symm
  conserved := by
    intro u
    by_cases hEq : u = v
    · subst hEq
      refine ⟨?_, fun hWaits => (hNot hWaits).elim⟩
      have hBefore := (hInv.conserved u).1
      simp only [accept, setQueue, count, Function.update_self,
        List.map_append, List.map_singleton, nextTag]
      rw [hBefore, List.append_assoc]
      rfl
    · apply (hInv.conserved u).congr
      · exact Function.update_of_ne hEq _ _
      · rfl
      · exact Function.update_of_ne hEq _ _
      · rfl
      · exact fun h => h

/- A sender blocks. -/
theorem block
    {t v : τ} (hFree : c.mode t = .idle) :
    ((c.count (some t)).setMode t (.sending v (c.nextTag (some t) m))).Inv where
  tagged := by
    have hFree' : c.Free (some t) := by
      rintro u ⟨⟩
      exact hFree
    intro u w tag hMode
    by_cases hEq : u = t
    · subst hEq
      have hSelf : ((c.count (some u)).setMode u
            (.sending v (c.nextTag (some u) m))).mode u = .sending v (c.nextTag (some u) m) :=
        Function.update_self _ _ _
      rw [hSelf] at hMode
      cases hMode
      refine ⟨rfl, ?_⟩
      exact (Function.update_self (some u) _ c.sent).symm
    · apply hInv.tagged.count hFree' u w tag
      rw [← hMode]
      exact (Function.update_of_ne hEq _ _).symm
  ordered := by
    refine hInv.ordered.of_same rfl ?_
    intro other
    have hFree' : c.Free (some t) := by
      rintro u ⟨⟩
      exact hFree
    by_cases hEq : other = some t
    · subst hEq
      have hSelf : ((c.count (some t)).setMode t
            (.sending v (c.nextTag (some t) m))).mode t = .sending v (c.nextTag (some t) m) :=
        Function.update_self _ _ _
      rw [decided_of_sending hSelf]
      exact Nat.le_of_eq hFree'.decided_eq
    · have hSame := decided_count hFree' other
      rw [if_neg hEq] at hSame
      rw [← hSame]
      cases other with
      | none => exact Nat.le_refl _
      | some u =>
        have hNe : u ≠ t := by
          rintro rfl
          exact hEq rfl
        simp only [decided, setMode, Function.update_of_ne hNe]
        exact Nat.le_refl _
  conserved := by
    intro u
    refine (hInv.conserved u).congr rfl rfl rfl ?_ ?_
    · refine held_setMode (c := c.count (some t)) ?_ ?_ u
      · intro m' hHolds
        have hIdle : c.mode t = .holding m' := hHolds
        rw [hFree] at hIdle
        cases hIdle
      · intro m' hHolds
        cases hHolds
    · intro hWaits
      refine receiving_of_setMode (c := c.count (some t)) ?_ hWaits
      intro hEq
      cases hEq

/- A waiting receiver is handed a message. -/
theorem hand
    (hFree : c.Free sender) (hWaits : c.mode v = .receiving) :
    (((c.count sender).setMode v (.holding m)).accept v (c.nextTag sender m)).Inv where
  tagged := by
    refine Tagged.setMode (hInv.tagged.count hFree) ?_
    intro u tag hMode
    cases hMode
  ordered := by
    have hLe : ∀ other, (c.count sender).decided other ≤
            ((c.count sender).setMode v (.holding m)).decided other := by
      apply decided_le_setMode (hInv.tagged.count hFree)
      intro u tag hMode
      cases hMode
    refine hInv.ordered.of_accept rfl ?_ ?_ ?_
    · intro other
      exact Nat.le_trans (decided_le_count hFree other) (hLe other)
    · exact Nat.le_of_eq hFree.decided_eq
    · have hNow := decided_count hFree sender
      rw [if_pos rfl] at hNow
      have hLess := hLe sender
      rw [hNow] at hLess
      exact hLess
  conserved := by
    intro u
    by_cases hEq : u = v
    · subst hEq
      have hSelf : ((c.count sender).setMode u (.holding m)).mode u = .holding m :=
        Function.update_self _ _ _
      constructor
      · have hBefore := (hInv.conserved u).1
        have hQueue := (hInv.conserved u).2 hWaits
        have hHeld : c.held u = [] := by
          apply held_eq_nil
          intro m' hHolds
          rw [hWaits] at hHolds
          cases hHolds
        have hHeld' : (((c.count sender).setMode u (.holding m)).accept u
              (c.nextTag sender m)).held u = [m] := by
          have hMode : (((c.count sender).setMode u
                (.holding m)).accept u (c.nextTag sender m)).mode u = .holding m :=
            hSelf
          simp only [held, hMode]
        rw [hHeld']
        simp only [accept, setMode, count, Function.update_self, List.map_append,
          List.map_singleton, nextTag]
        rw [hBefore, hHeld, hQueue]
        simp
      · intro hWaits'
        have hMode := hSelf.symm.trans hWaits'
        cases hMode
    · refine (hInv.conserved u).congr ?_ rfl rfl ?_ ?_
      · exact Function.update_of_ne hEq _ _
      · exact held_congr (Function.update_of_ne hEq _ _)
      · intro hMode
        rw [← hMode]
        exact (Function.update_of_ne hEq _ _).symm

/- The receiver takes the oldest queued message. -/
theorem take
    {rest : List μ} (hIdle : c.mode v = .idle) (hQueue : c.queue v = m :: rest) :
    ((c.setQueue v rest).deliver v m).Inv where
  tagged := hInv.tagged
  ordered := hInv.ordered.of_same rfl (fun _ => Nat.le_refl _)
  conserved := by
    intro u
    by_cases hEq : u = v
    · subst hEq
      have hHeld : c.held u = [] := by
        apply held_eq_nil
        intro m' hHolds
        rw [hIdle] at hHolds
        cases hHolds
      constructor
      · have hBefore := (hInv.conserved u).1
        rw [hHeld, hQueue] at hBefore
        have hHeld' : ((c.setQueue u rest).deliver u m).held u = [] := hHeld
        rw [hHeld']
        simp only [deliver, setQueue, Function.update_self]
        rw [hBefore]
        simp
      · intro hWaits
        have hMode := hIdle.symm.trans hWaits
        cases hMode
    · refine (hInv.conserved u).congr rfl ?_ ?_ rfl (fun h => h)
      · exact Function.update_of_ne hEq _ _
      · exact Function.update_of_ne hEq _ _

/- A blocked sender's message is accepted. -/
theorem ordered_release
    {v x : τ} (hSender : c.mode x = .sending v tag)
    (hAccepted : c'.accepted = Function.update c.accepted v (c.accepted v ++ [tag]))
    (hMode : c'.mode = (c.setMode x .idle).mode) (hSent : c'.sent = c.sent) :
    c'.Ordered := by
  rcases hInv.tagged x v tag hSender with ⟨hTag, hSeq⟩
  have hDecided : ∀ other, c'.decided other = (c.setMode x .idle).decided other := by
    intro other
    unfold decided
    rw [hMode, hSent]
    rfl
  have hIdle : ∀ (u : τ) (tag' : Tag τ μ), Mode.idle ≠ Mode.sending u tag' := by
    intro u tag' hEq
    cases hEq
  have hLe := decided_le_setMode (x := x) hInv.tagged hIdle
  refine hInv.ordered.of_accept hAccepted ?_ ?_ ?_
  · intro other
    rw [hDecided]
    exact hLe other
  · exact Nat.le_of_eq (by rw [hTag, decided_of_sending hSender])
  · have hNow : (c.setMode x .idle).decided (some x) = c.sent (some x) := by
      apply decided_eq
      intro u tag' hSending
      have hSelf : (c.setMode x .idle).mode x = .idle := Function.update_self _ _ _
      rw [hSelf] at hSending
      cases hSending
    rw [hTag, hDecided, hNow]
    omega

/- A message moves up from a blocked sender to the queue. -/
theorem refill
    {v x : τ} {rest : List μ} (hIdle : c.mode v = .idle)
    (hQueue : c.queue v = m :: rest) (hSender : c.mode x = .sending v tag) :
    ((((c.setQueue v (rest ++ [tag.msg])).deliver v m).setMode x .idle).accept v tag).Inv where
  tagged := by
    refine Tagged.setMode (c := (c.setQueue v (rest ++ [tag.msg])).deliver v m) hInv.tagged ?_
    intro u tag' hEq
    cases hEq
  ordered := hInv.ordered_release hSender rfl rfl rfl
  conserved := by
    intro u
    have hHeld : ((((c.setQueue v (rest ++ [tag.msg])).deliver v
            m).setMode x .idle).accept v tag).held u = c.held u := by
      refine held_setMode (c := (c.setQueue v (rest ++ [tag.msg])).deliver v m) ?_ ?_ u
      · intro m' hHolds
        have hMode := hSender.symm.trans hHolds
        cases hMode
      · intro m' hHolds
        cases hHolds
    by_cases hEq : u = v
    · subst hEq
      have hNone : c.held u = [] := by
        apply held_eq_nil
        intro m' hHolds
        rw [hIdle] at hHolds
        cases hHolds
      constructor
      · have hBefore := (hInv.conserved u).1
        rw [hNone, hQueue] at hBefore
        rw [hHeld, hNone]
        simp only [accept, setMode, deliver, setQueue, Function.update_self, List.map_append,
          List.map_singleton]
        rw [hBefore]
        simp
      · intro hWaits
        have hOld : c.mode u = .receiving := receiving_of_setMode (by simp) hWaits
        rw [hIdle] at hOld
        cases hOld
    · refine (hInv.conserved u).congr ?_ ?_ ?_ hHeld ?_
      · exact Function.update_of_ne hEq _ _
      · exact Function.update_of_ne hEq _ _
      · exact Function.update_of_ne hEq _ _
      · exact receiving_of_setMode (by simp)

/- A blocked sender's message goes to the receiver. -/
theorem direct
    {v x : τ} (hIdle : c.mode v = .idle) (hQueue : c.queue v = [])
    (hSender : c.mode x = .sending v tag) :
    (((c.deliver v tag.msg).setMode x .idle).accept v tag).Inv where
  tagged := by
    refine Tagged.setMode (c := c.deliver v tag.msg) hInv.tagged ?_
    intro u tag' hEq
    cases hEq
  ordered := hInv.ordered_release hSender rfl rfl rfl
  conserved := by
    intro u
    have hHeld : (((c.deliver v tag.msg).setMode x .idle).accept v tag).held u = c.held u := by
      refine held_setMode (c := c.deliver v tag.msg) ?_ ?_ u
      · intro m' hHolds
        have hMode := hSender.symm.trans hHolds
        cases hMode
      · intro m' hHolds
        cases hHolds
    by_cases hEq : u = v
    · subst hEq
      have hNone : c.held u = [] := by
        apply held_eq_nil
        intro m' hHolds
        rw [hIdle] at hHolds
        cases hHolds
      refine ⟨?_, fun _ => hQueue⟩
      have hBefore := (hInv.conserved u).1
      rw [hNone, hQueue] at hBefore
      rw [hHeld, hNone]
      simp only [accept, setMode, deliver, Function.update_self, List.map_append,
        List.map_singleton]
      rw [hBefore, hQueue]
      simp
    · refine (hInv.conserved u).congr ?_ ?_ rfl hHeld ?_
      · exact Function.update_of_ne hEq _ _
      · exact Function.update_of_ne hEq _ _
      · exact receiving_of_setMode (by simp)

/- A receiver waits. -/
theorem wait
    (hIdle : c.mode v = .idle) (hQueue : c.queue v = []) :
    (c.setMode v .receiving).Inv where
  tagged := by
    apply hInv.tagged.setMode
    intro u tag hEq
    cases hEq
  ordered := by
    refine hInv.ordered.of_same rfl ?_
    apply decided_le_setMode hInv.tagged
    intro u tag hEq
    cases hEq
  conserved := by
    intro u
    have hHeld : (c.setMode v .receiving).held u = c.held u := by
      refine held_setMode ?_ ?_ u
      · intro m hHolds
        rw [hIdle] at hHolds
        cases hHolds
      · intro m hHolds
        cases hHolds
    constructor
    · rw [hHeld]
      exact (hInv.conserved u).1
    · intro hWaits
      by_cases hEq : u = v
      · subst hEq
        exact hQueue
      · apply (hInv.conserved u).2
        rw [← hWaits]
        exact (Function.update_of_ne hEq _ _).symm

/- A receiver returns with the message it was handed. -/
theorem finish
    (hHolds : c.mode v = .holding m) :
    ((c.deliver v m).setMode v .idle).Inv where
  tagged := by
    refine Tagged.setMode (c := c.deliver v m) hInv.tagged ?_
    intro u tag hEq
    cases hEq
  ordered := by
    refine hInv.ordered.of_same rfl ?_
    refine decided_le_setMode (c := c.deliver v m) hInv.tagged ?_
    intro u tag hEq
    cases hEq
  conserved := by
    intro u
    by_cases hEq : u = v
    · subst hEq
      constructor
      · have hBefore := (hInv.conserved u).1
        have hHeld : c.held u = [m] := by
          simp only [held, hHolds]
        have hNone : ((c.deliver u m).setMode u .idle).held u = [] := by
          apply held_eq_nil
          intro m' hMode
          unfold setMode at hMode
          dsimp only at hMode
          rw [Function.update_self] at hMode
          cases hMode
        rw [hNone]
        simp only [setMode, deliver, Function.update_self]
        rw [hBefore, hHeld]
        simp
      · intro hWaits
        have hOld : c.mode u = .receiving := receiving_of_setMode (by simp) hWaits
        rw [hHolds] at hOld
        cases hOld
    · refine (hInv.conserved u).congr rfl ?_ rfl ?_ ?_
      · exact Function.update_of_ne hEq _ _
      · exact held_congr (Function.update_of_ne hEq _ _)
      · exact receiving_of_setMode (by simp)

/- Every step keeps the invariant. -/
theorem step
    (hStep : Step c c') :
    c'.Inv := by
  cases hStep with
  | skip => exact hInv
  | fail sender hFree => exact hInv.fail hFree
  | enqueue sender v m hFree hNot => exact hInv.enqueue hFree hNot
  | block t v m hFree => exact hInv.block hFree
  | hand sender v m hFree hWaits => exact hInv.hand hFree hWaits
  | take v m rest hIdle hQueue => exact hInv.take hIdle hQueue
  | refill v x m rest tag hIdle hQueue hSender => exact hInv.refill hIdle hQueue hSender
  | direct v x tag hIdle hQueue hSender => exact hInv.direct hIdle hQueue hSender
  | wait v hIdle hQueue => exact hInv.wait hIdle hQueue
  | finish v m hHolds => exact hInv.finish hHolds

end

end Inv

/- What was accepted stays accepted. -/
theorem Step.accepted_extends
    (hStep : Step c c') (v : τ) :
    c.accepted v <+: c'.accepted v := by
  have hAccept : ∀ (d : Channels τ μ) (u : τ) (tag : Tag τ μ),
        d.accepted v <+: (d.accept u tag).accepted v := by
    intro d u tag
    by_cases hEq : v = u
    · subst hEq
      unfold accept
      dsimp only
      rw [Function.update_self]
      exact List.prefix_append _ _
    · have hSame : (d.accept u tag).accepted v = d.accepted v := Function.update_of_ne hEq _ _
      exact hSame ▸ List.prefix_rfl
  cases hStep with
  | enqueue sender u m _ _ => exact hAccept _ u _
  | hand sender u m _ _ => exact hAccept _ u _
  | refill u x m rest tag _ _ _ => exact hAccept _ u tag
  | direct u x tag _ _ _ => exact hAccept _ u tag
  | _ => exact List.prefix_rfl

end Channels
