import Mathlib.Data.List.Basic
import Riot.Lib.System

/-
  The SLIP driver, `slipdev.c`, on a serial line of its own.
  The ring of received bytes is the queue that it holds.
-/

----
-- The Driver
----

namespace Riot

/- SLIPDEV_END -/
def slipdevEnd : UInt8 := 0xc0

/- SLIPDEV_ESC -/
def slipdevEsc : UInt8 := 0xdb

/- SLIPDEV_END_ESC -/
def slipdevEndEsc : UInt8 := 0xdc

/- SLIPDEV_ESC_ESC -/
def slipdevEscEsc : UInt8 := 0xdd

def slipdevWriteBytes
    (data : List UInt8) : List UInt8 :=
  data.flatMap fun byte =>
    if byte = slipdevEnd then [slipdevEsc, slipdevEndEsc]
    else if byte = slipdevEsc then [slipdevEsc, slipdevEscEsc]
    else [byte]

/- What _send writes to the line. -/
def slipSend
    (iolist : List (List UInt8)) : List UInt8 :=
  iolist.flatMap slipdevWriteBytes ++ [slipdevEnd]

/- The byte that is stored, if any, and `escaped`. -/
def slipdevUnstuffReadbyte
    (byte : UInt8) (escaped : Bool) : Option UInt8 × Bool :=
  if byte = slipdevEsc then (none, true)
  else if byte = slipdevEnd then (none, escaped)
  else if byte = slipdevEndEsc ∧ escaped then (some slipdevEnd, false)
  else if byte = slipdevEscEsc ∧ escaped then (some slipdevEsc, false)
  else (some byte, false)

inductive SlipRet where
  | received (res : Nat)
  | enobufs
  | eio
deriving DecidableEq

/- What is returned, stored from `buf` on, and left in the ring. -/
structure SlipRecv where
  ret : SlipRet
  stored : List UInt8
  inbuf : List UInt8

/- The end of a packet, without which the loop goes on for ever. -/
def slipClear
    (inbuf : List UInt8) : Option (List UInt8) :=
  match inbuf with
  | [] => none
  | byte :: inbuf => if byte = slipdevEnd then some inbuf else slipClear inbuf

/- The loop of _recv. The room is looked at after a byte was stored. -/
def slipRecvLoop
    (len : Nat) : List UInt8 → List UInt8 → Bool → Option SlipRecv
| [], stored, _ => some ⟨.eio, stored, []⟩
| byte :: inbuf, stored, escaped =>
  let read := slipdevUnstuffReadbyte byte escaped
  let stored := stored ++ read.1.toList
  if stored.length > len then (slipClear (byte :: inbuf)).map (⟨.enobufs, stored, ·⟩)
  else if byte = slipdevEnd then some ⟨.received stored.length, stored, inbuf⟩
  else slipRecvLoop len inbuf stored read.2

/- _recv, with a buffer of `len` bytes -/
def slipRecv
    (len : Nat) (inbuf : List UInt8) : Option SlipRecv :=
  slipRecvLoop len inbuf [] false

----
-- Frames
----

variable {len : Nat} {p rest stored inbuf : List UInt8} {escaped : Bool}

/- A packet is framed as a whole, however it is cut into buffers. -/
theorem slipSend_eq
    (iolist : List (List UInt8)) :
    slipSend iolist = slipSend [iolist.flatten] := by
  induction iolist with
  | nil => rfl
  | cons buf iolist ih =>
    simp only [slipSend, slipdevWriteBytes, List.flatMap_cons, List.flatten_cons] at ih ⊢
    rw [List.append_assoc, ih]
    simp

theorem slipSend_singleton
    (p : List UInt8) :
    slipSend [p] = slipdevWriteBytes p ++ [slipdevEnd] := by
  simp [slipSend]

theorem not_mem_writeBytes
    (p : List UInt8) :
    slipdevEnd ∉ slipdevWriteBytes p := by
  intro hMem
  rcases List.mem_flatMap.mp hMem with ⟨byte, _, hByte⟩
  split_ifs at hByte with hEnd hEsc
  · exact absurd hByte (by decide)
  · exact absurd hByte (by decide)
  · exact hEnd (List.mem_singleton.mp hByte).symm

theorem slipClear_of_not_mem
    (hNot : slipdevEnd ∉ p) :
    slipClear (p ++ slipdevEnd :: rest) = some rest := by
  induction p with
  | nil => rfl
  | cons b p ih =>
    rw [List.mem_cons, not_or] at hNot
    rw [List.cons_append, slipClear, if_neg (Ne.symm hNot.1)]
    exact ih hNot.2

theorem slipClear_isSome
    (hEnd : slipdevEnd ∈ inbuf) :
    (slipClear inbuf).isSome := by
  induction inbuf with
  | nil => cases hEnd
  | cons b inbuf ih =>
    rw [slipClear]
    split_ifs with hHere
    · rfl
    · exact ih (List.mem_of_ne_of_mem (Ne.symm hHere) hEnd)

/- One byte of a packet, stuffed or not. -/
theorem slipRecvLoop_byte
    (b : UInt8)
    (hRoom : stored.length ≤ len) :
    slipRecvLoop len (slipdevWriteBytes [b] ++ rest) stored false =
      if stored.length + 1 > len then (slipClear rest).map (⟨.enobufs, stored ++ [b], ·⟩)
      else slipRecvLoop len rest (stored ++ [b]) false := by
  have hNot : ¬ stored.length > len := Nat.not_lt.mpr hRoom
  by_cases hEnd : b = slipdevEnd
  · subst hEnd
    simp [slipdevWriteBytes, slipRecvLoop, slipdevUnstuffReadbyte, slipClear, slipdevEnd,
      slipdevEsc, slipdevEndEsc, hNot]
  · by_cases hEsc : b = slipdevEsc
    · subst hEsc
      simp [slipdevWriteBytes, slipRecvLoop, slipdevUnstuffReadbyte, slipClear, slipdevEnd,
        slipdevEsc, slipdevEndEsc, slipdevEscEsc, hNot]
    · simp [slipdevWriteBytes, slipRecvLoop, slipdevUnstuffReadbyte, slipClear, hEnd, hEsc]

/- What a call with room for `len` bytes makes of a packet. -/
def slipAnswer
    (p : List UInt8) (len : Nat) : SlipRet × List UInt8 :=
  if p.length ≤ len then (.received p.length, p) else (.enobufs, p.take (len + 1))

/- The loop takes the first packet from the ring, and no more. -/
theorem slipRecvLoop_frame
    (hRoom : stored.length ≤ len) :
    slipRecvLoop len (slipdevWriteBytes p ++ slipdevEnd :: rest) stored false =
      some ⟨(slipAnswer (stored ++ p) len).1, (slipAnswer (stored ++ p) len).2, rest⟩ := by
  induction p generalizing stored with
  | nil =>
    rw [List.append_nil, slipAnswer, if_pos hRoom]
    simp [slipdevWriteBytes, slipRecvLoop, slipdevUnstuffReadbyte, Nat.not_lt.mpr hRoom,
      show slipdevEnd ≠ slipdevEsc by decide]
  | cons b p ih =>
    have hHead : slipdevWriteBytes (b :: p) = slipdevWriteBytes [b] ++ slipdevWriteBytes p :=
      @List.flatMap_append _ _ [b] p _
    have hAll : stored ++ b :: p = stored ++ [b] ++ p := by simp
    rw [hHead, hAll, List.append_assoc, slipRecvLoop_byte b hRoom]
    by_cases hFull : stored.length + 1 > len
    · rw [if_pos hFull, slipClear_of_not_mem (not_mem_writeBytes p), slipAnswer,
        if_neg (by simp; omega), List.take_append_of_le_length (by simp; omega),
        List.take_of_length_le (by simp; omega)]
      rfl
    · rw [if_neg hFull]
      exact ih (by simpa using Nat.not_lt.mp hFull)

----
-- Any Ring
----

/-
  Whatever is in the ring, the loop ends if there is the end of
  a packet, and it stores one byte behind the buffer exactly
  when it answers that the packet is too long.
-/
theorem slipRecvLoop_stores
    (hRoom : stored.length ≤ len) :
    (slipdevEnd ∈ inbuf → (slipRecvLoop len inbuf stored escaped).isSome) ∧
      ∀ r ∈ slipRecvLoop len inbuf stored escaped, r.stored.length ≤ len + 1 ∧
        (len < r.stored.length ↔ r.ret = .enobufs) := by
  induction inbuf generalizing stored escaped with
  | nil => simp [slipRecvLoop]; omega
  | cons byte inbuf ih =>
    have hOne : (slipdevUnstuffReadbyte byte escaped).1.toList.length ≤ 1 := by
      cases (slipdevUnstuffReadbyte byte escaped).1 <;> simp
    simp only [slipRecvLoop]
    split_ifs with hFull hEnd
    · refine ⟨fun hMem => by simpa using slipClear_isSome hMem, fun r hr => ?_⟩
      rcases Option.map_eq_some_iff.mp hr with ⟨_, _, rfl⟩
      rw [List.length_append] at hFull ⊢
      exact ⟨by omega, iff_of_true (by omega) rfl⟩
    · refine ⟨fun _ => rfl, fun r hr => ?_⟩
      cases hr
      exact ⟨Nat.le_succ_of_le (Nat.not_lt.mp hFull), iff_of_false hFull (by simp)⟩
    · rcases ih (Nat.not_lt.mp hFull) with ⟨hEnds, hStores⟩
      exact ⟨fun hMem => hEnds (List.mem_of_ne_of_mem (Ne.symm hEnd) hMem), hStores⟩

/- A call with a packet in the ring ends, and stores no more than one byte too many. -/
theorem slipRecv_ends :
    (slipdevEnd ∈ inbuf → (slipRecv len inbuf).isSome) ∧
      ∀ r ∈ slipRecv len inbuf, r.stored.length ≤ len + 1 ∧
        (len < r.stored.length ↔ r.ret = .enobufs) :=
  slipRecvLoop_stores (Nat.zero_le len)

----
-- Runs of the Line
----

/-
  Bytes on the line and in the ring, events that wait for a
  call of _recv, and what was sent, asked for and answered.
-/
structure SlipRun where
  line : List UInt8
  inbuf : List UInt8
  events : Nat
  sent : List (List UInt8)
  lens : List Nat
  answers : List (SlipRet × List UInt8)
deriving DecidableEq

inductive SlipEvent where
  | send (iolist : List (List UInt8))
  | rx
  | recv (len : Nat)
deriving DecidableEq

namespace SlipRun

def exec
    (size : Nat) (r : SlipRun) : SlipEvent → Option SlipRun
| .send iolist =>
  some { r with line := r.line ++ slipSend iolist, sent := r.sent ++ [iolist.flatten] }
| .rx =>
  -- _slip_rx_cb: a full ring drops the byte, and its end is an event all the same
  r.line.head?.map fun byte =>
    { r with
      line := r.line.tail
      inbuf := if r.inbuf.length < size then r.inbuf ++ [byte] else r.inbuf
      events := if byte = slipdevEnd then r.events + 1 else r.events }
| .recv len =>
  (slipRecv len r.inbuf).map fun a =>
    { r with
      inbuf := a.inbuf
      events := r.events - 1
      lens := r.lens ++ [len]
      answers := r.answers ++ [(a.ret, a.stored)] }

def Enabled
    (r : SlipRun) : SlipEvent → Prop
| .recv _ => 0 < r.events
| _ => True

/- The ring has room for the byte that arrives. -/
def Room
    (size : Nat) (r : SlipRun) (e : SlipEvent) : Prop :=
  e = .rx → r.inbuf.length < size

end SlipRun

def slipSystem
    (size : Nat) : System SlipRun SlipEvent where
  Start r := r = ⟨[], [], 0, [], [], []⟩
  Enabled := SlipRun.Enabled
  exec := SlipRun.exec size

/- The ring and the line hold the packets that were not asked for. -/
structure SlipInv
    (r : SlipRun) : Prop where
  le : r.lens.length ≤ r.sent.length
  answers : r.answers = List.zipWith slipAnswer (r.sent.take r.lens.length) r.lens
  frames : r.inbuf ++ r.line = (r.sent.drop r.lens.length).flatMap (slipSend [·])
  events : r.events = r.inbuf.count slipdevEnd

variable {r r' : SlipRun} {size : Nat}

theorem count_writeBytes :
    (slipdevWriteBytes p).count slipdevEnd = 0 :=
  List.count_eq_zero.mpr (not_mem_writeBytes p)

/- An event waits for the whole of the first packet. -/
theorem SlipInv.first
    (h : SlipInv r) (hEvent : 0 < r.events) :
    ∃ p later inbuf, r.sent.drop r.lens.length = p :: later ∧
      r.inbuf = slipdevWriteBytes p ++ slipdevEnd :: inbuf ∧
      inbuf ++ r.line = later.flatMap (slipSend [·]) := by
  have hFrames := h.frames
  have hMem : slipdevEnd ∈ r.inbuf := List.count_pos_iff.mp (h.events ▸ hEvent)
  cases hSent : r.sent.drop r.lens.length with
  | nil =>
    rw [hSent, List.flatMap_nil, List.append_eq_nil_iff] at hFrames
    rw [hFrames.1] at hMem
    cases hMem
  | cons p later =>
    rw [hSent, List.flatMap_cons, slipSend_singleton, List.append_assoc] at hFrames
    rcases List.append_eq_append_iff.mp hFrames with ⟨more, hAll, _⟩ | ⟨more, hAll, hRest⟩
    · have hNot := not_mem_writeBytes p
      rw [hAll] at hNot
      exact absurd (List.mem_append_left _ hMem) hNot
    · cases more with
      | nil =>
        rw [List.append_nil] at hAll
        exact absurd (hAll ▸ hMem) (not_mem_writeBytes p)
      | cons b inbuf =>
        rcases List.cons.inj hRest with ⟨hEnd, hRest⟩
        exact ⟨p, later, inbuf, rfl, hEnd ▸ hAll, hRest.symm⟩

theorem SlipInv.exec
    {e : SlipEvent} (h : SlipInv r) (hRoom : r.Room size e) (hEnabled : r.Enabled e)
    (hExec : r.exec size e = some r') :
    SlipInv r' := by
  cases e with
  | send iolist =>
    cases hExec
    have hLe := h.le
    refine ⟨?_, ?_, ?_, h.events⟩
    · simpa using Nat.le_succ_of_le hLe
    · rw [List.take_append_of_le_length hLe]
      exact h.answers
    · rw [List.drop_append_of_le_length hLe, List.flatMap_append, ← h.frames, slipSend_eq,
        List.append_assoc]
      simp
  | rx =>
    rcases Option.map_eq_some_iff.mp hExec with ⟨b, hHead, rfl⟩
    have hLine : r.line = b :: r.line.tail := List.eq_cons_of_mem_head? hHead
    have hFrames := h.frames
    rw [hLine] at hFrames
    simp only [if_pos (hRoom rfl)]
    refine ⟨h.le, h.answers, by simpa using hFrames, ?_⟩
    rw [List.count_append, ← h.events, List.count_singleton]
    simp only [beq_iff_eq]
    split_ifs <;> rfl
  | recv len =>
    rcases h.first hEnabled with ⟨p, later, inbuf, hSent, hInbuf, hRest⟩
    have hRecv : slipRecv len r.inbuf =
        some ⟨(slipAnswer p len).1, (slipAnswer p len).2, inbuf⟩ := by
      rw [slipRecv, hInbuf]
      exact slipRecvLoop_frame (Nat.zero_le len)
    have hLt : r.lens.length < r.sent.length := by
      by_contra hNot
      rw [List.drop_eq_nil_of_le (Nat.not_lt.mp hNot)] at hSent
      cases hSent
    rcases Option.map_eq_some_iff.mp hExec with ⟨a, ha, rfl⟩
    rw [hRecv] at ha
    cases ha
    rw [List.drop_eq_getElem_cons hLt] at hSent
    rcases List.cons.inj hSent with ⟨hHead, hLater⟩
    refine ⟨?_, ?_, ?_, ?_⟩
    · simpa using Nat.succ_le_of_lt hLt
    · simp only [List.length_append, List.length_singleton]
      rw [List.take_succ_eq_append_getElem hLt, hHead, List.zipWith_append (by simp; omega),
        h.answers]
      rfl
    · simp only [List.length_append, List.length_singleton, hLater]
      exact hRest
    · rw [h.events, hInbuf, List.count_append, count_writeBytes, List.count_cons_self, Nat.zero_add]
      rfl

/-
  As long as no byte is dropped, the calls that the events ask
  for return, they answer for the packets in the order in which
  these were sent, and none is lost.
-/
theorem slip_receives
    (hReach : (slipSystem size).ReachableVia (SlipRun.Room size) r) :
    r.answers = List.zipWith slipAnswer (r.sent.take r.lens.length) r.lens ∧
      r.lens.length ≤ r.sent.length ∧
      (r.line = [] → r.events = 0 → r.lens.length = r.sent.length) ∧
      (0 < r.events → ∀ len, (slipRecv len r.inbuf).isSome) := by
  have hInv : SlipInv r := by
    apply hReach.invariant (I := SlipInv)
    · rintro r rfl
      exact ⟨le_rfl, rfl, rfl, rfl⟩
    · exact fun r e r' h hRoom hEnabled hExec => h.exec hRoom hEnabled hExec
  refine ⟨hInv.answers, hInv.le, fun hLine hNone => ?_, fun hEvent len => ?_⟩
  · have hFrames := hInv.frames
    have hCount := congrArg (List.count slipdevEnd) hFrames
    rw [hLine, List.append_nil, ← hInv.events, hNone] at hCount
    cases hSent : r.sent.drop r.lens.length with
    | nil => exact Nat.le_antisymm hInv.le (List.drop_eq_nil_iff.mp hSent)
    | cons p later =>
      rw [hSent, List.flatMap_cons, slipSend_singleton, List.count_append, List.count_append,
        List.count_singleton_self] at hCount
      omega
  · rcases hInv.first hEvent with ⟨p, _, inbuf, _, hInbuf, _⟩
    exact (slipRecvLoop_stores (Nat.zero_le len)).1 (by simp [hInbuf])

/- A packet of one byte, for which there is no room. -/
theorem slip_receives_tooLong :
    ∃ r : SlipRun, r.answers = [(.enobufs, [7])] ∧
      r.answers = List.zipWith slipAnswer (r.sent.take r.lens.length) r.lens := by
  have hSent : (slipSystem 2).ReachableVia (SlipRun.Room 2) _ :=
    .step (e := SlipEvent.send [[7]]) (.start rfl) nofun trivial rfl
  have hByte := hSent.step (e := SlipEvent.rx) (fun _ => by decide) trivial rfl
  have hEnd := hByte.step (e := SlipEvent.rx) (fun _ => by decide) trivial rfl
  have hRecv := hEnd.step (e := SlipEvent.recv 0) nofun Nat.one_pos rfl
  exact ⟨_, rfl, (slip_receives hRecv).1⟩

end Riot
