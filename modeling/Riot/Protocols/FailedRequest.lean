import Riot.Core.Msg
import Riot.Scheduler.System

/-
  A request to a thread that does not exist.

  `msg_send_receive` blocks its caller before `_msg_send`
  looks for the target, and nothing takes that back when
  there is none: the call returns -1 to a thread that is
  blocked and off its run queue.  `msg_send` on the same
  path leaves its caller alone.
-/

----
-- Failing Sends
----

namespace Riot

variable {N : Nat} {setStatus : StatusFn N} {k k' : Kernel N} {me : Fin N}
variable {m : Msg} {targetPid : Int}

/-
  A call leaves the status, the `wait_data` pointer and the
  run queues of its caller as they were.
-/
structure KeepsCaller
    (k k' : Kernel N)
    (me : Fin N) : Prop where
  status : (k'.thread me).status = (k.thread me).status
  waitData : (k'.thread me).waitData = (k.thread me).waitData
  runqueue : ∀ p, me ∈ k'.runqueue p ↔ me ∈ k.runqueue p

/- A caller that waits gets no failure code. -/
theorem sendOutcome_ne_failed
    (k : Kernel N) (me : Fin N) :
    sendOutcome k me ≠ .returned (-1) := by
  unfold sendOutcome
  by_cases hWaits : (k.thread me).status = .replyBlocked
  · rw [if_pos hWaits]
    intro hEq
    cases hEq
  · rw [if_neg hWaits]
    intro hEq
    cases hEq

/-
  A send fails only when there is no target, and it has
  written the message object of the caller by then.
-/
theorem msgSendWith_failed
    {block : Bool} (hActive : k.schedActiveThread = some me)
    (hFail : msgSendWith setStatus k m targetPid block = some (k', .returned (-1))) :
    k.schedThreads targetPid = none ∧
      k' = k.setBuffer me { m with senderPid := k.schedActivePid } := by
  unfold msgSendWith at hFail
  rw [hActive] at hFail
  simp only [Option.bind_eq_bind, Option.bind_some] at hFail
  split at hFail
  · rename_i hNone
    cases hFail
    exact ⟨hNone, rfl⟩
  · rename_i target hTarget
    exfalso
    split at hFail
    · rcases Option.bind_eq_some_iff.mp hFail with ⟨⟨k₁, queued⟩, hQueue, hRest⟩
      dsimp only at hRest
      split at hRest
      · -- the message is in the queue of the target
        have hPair := Option.some.inj hRest
        exact sendOutcome_ne_failed k₁ me (congrArg Prod.snd hPair)
      · split at hRest
        · cases hRest
        · rcases Option.bind_eq_some_iff.mp hRest with ⟨k₂, _, hLast⟩
          cases hLast
    · rcases Option.bind_eq_some_iff.mp hFail with ⟨k₁, _, hLast⟩
      have hPair := Option.some.inj hLast
      exact sendOutcome_ne_failed k₁ me (congrArg Prod.snd hPair)

----
-- Failing Requests
----

variable {N : Nat} {cfg : Config N} {k k' : Kernel N} {me : Fin N} {m : Msg}
variable {targetPid : Int}

section

variable (hActive : k.schedActiveThread = some me)
variable (hFail : msgSendReceive (schedSetStatus cfg) k m targetPid = some (k', .returned (-1)))

include hActive hFail

/- What a failing request leaves behind. -/
theorem msgSendReceive_failed :
    k.schedThreads targetPid = none ∧ ∃ k₁, schedSetStatus cfg k me .replyBlocked = some k₁ ∧
          k' = (k₁.setWaitData me (some me)).setBuffer me
            { m with senderPid := k.schedActivePid } := by
  unfold msgSendReceive at hFail
  split at hFail
  · cases hFail
  · rw [hActive] at hFail
    rcases Option.bind_eq_some_iff.mp hFail with ⟨_, hSome, hRest⟩
    cases hSome
    rcases Option.bind_eq_some_iff.mp hRest with ⟨k₁, hSet, hSend⟩
    rcases schedSetStatus_frame hSet with ⟨mem, bitcache, hFrame⟩
    have hActive₁ : (k₁.setWaitData me (some me)).schedActiveThread = some me := by
      rw [hFrame]
      exact hActive
    rcases msgSendWith_failed hActive₁ hSend with ⟨hNone, hLast⟩
    have hThreads : (k₁.setWaitData me (some me)).schedThreads = k.schedThreads := by
      rw [hFrame]
      rfl
    have hPid : (k₁.setWaitData me (some me)).schedActivePid = k.schedActivePid := by
      rw [hFrame]
      rfl
    rw [hThreads] at hNone
    rw [hPid] at hLast
    exact ⟨hNone, k₁, hSet, hLast⟩

end

end Riot
