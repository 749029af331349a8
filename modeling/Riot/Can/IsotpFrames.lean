import Riot.Can.Isotp
import Mathlib.Data.List.GetD

/-
  The frames of a message, and how a receiver reads them.
-/

----
-- Buffers
----

namespace Riot

theorem storeBytes_eq
    {buf bytes : List UInt8} {idx : Nat} (hFits : idx + bytes.length ≤ buf.length) :
    storeBytes buf idx bytes = buf.take idx ++ bytes ++ buf.drop (idx + bytes.length) := by
  induction bytes generalizing buf idx with
  | nil => simp [storeBytes]
  | cons b bytes ih =>
    rw [List.length_cons] at hFits
    have hIdx : idx < buf.length := by
      omega
    rw [storeBytes, ih (by rw [List.length_set]; omega)]
    have hTake : (buf.set idx b).take (idx + 1) = buf.take idx ++ [b] := by
      rw [List.take_succ_eq_append_getElem (by rw [List.length_set]; exact hIdx),
        List.getElem_set_self, List.take_set_of_le (Nat.le_refl _)]
    have hDrop :
        (buf.set idx b).drop (idx + 1 + bytes.length) = buf.drop (idx + (bytes.length + 1)) := by
      rw [List.drop_set_of_lt (by omega)]
      congr 1
      omega
    rw [hTake, hDrop, List.length_cons]
    simp

/- A part of a list, read by index. -/
theorem map_range'_getD
    {l : List UInt8} {i n : Nat} (hEnd : i + n ≤ l.length) :
    (List.range' i n).map (fun k => l.getD k 0) = (l.drop i).take n := by
  apply List.ext_getElem
  · simp
    omega
  · intro k hLeft hRight
    simp only [List.length_map, List.length_range'] at hLeft
    rw [List.getElem_map, List.getElem_range', List.getElem_take, List.getElem_drop,
      List.getD_eq_getElem l 0 (by omega)]
    congr 1
    omega

theorem CanFrame.bytes_eq
    {frame : CanFrame} {i j : Nat} (hEnd : j ≤ frame.data.length) :
    frame.bytes i j = (frame.data.drop i).take (j - i) := by
  by_cases hLe : i ≤ j
  · exact map_range'_getD (by omega)
  · have hZero : j - i = 0 := by
      omega
    unfold CanFrame.bytes
    rw [hZero]
    simp

theorem IsotpSnip.bytes_eq
    {snip : IsotpSnip} {idx n : Nat} (hEnd : idx + n ≤ snip.size) :
    snip.bytes idx n = (snip.data.drop idx).take n :=
  map_range'_getD hEnd

/- One more byte of a message is in the buffer. -/
theorem take_set_succ
    {m buf : List UInt8} {idx : Nat} {b : UInt8} (hLen : buf.length = m.length)
    (hDone : buf.take idx = m.take idx) (hByte : m[idx]? = some b) :
    (buf.set idx b).take (idx + 1) = m.take (idx + 1) := by
  rcases List.getElem?_eq_some_iff.mp hByte with ⟨hIdx, hEq⟩
  rw [List.take_succ_eq_append_getElem (by rw [List.length_set, hLen]; exact hIdx),
    List.getElem_set_self, List.take_set_of_le (Nat.le_refl _),
    hDone, List.take_succ_eq_append_getElem hIdx, hEq]

/-
  The bytes of a message that are in a frame are stored behind
  those that came before, and what follows them is not stored.
-/
theorem rcvCfLoop_spec
    {m buf chunk pad : List UInt8} {idx : Nat} (hLen : buf.length = m.length)
    (hDone : buf.take idx = m.take idx)
    (hChunk : chunk = (m.drop idx).take chunk.length) (hIdx : idx < m.length)
    (hPad : pad ≠ [] → idx + chunk.length = m.length) :
    ∃ buf', rcvCfLoop buf idx (chunk ++ pad) = (buf', idx + chunk.length) ∧
        buf'.length = m.length ∧
        buf'.take (idx + chunk.length) = m.take (idx + chunk.length) := by
  induction chunk generalizing buf idx with
  | nil =>
    have hNil : pad = [] := by
      by_contra hNe
      have hEnd := hPad hNe
      rw [List.length_nil] at hEnd
      omega
    subst hNil
    exact ⟨buf, rfl, hLen, hDone⟩
  | cons b chunk ih =>
    rw [List.length_cons] at hChunk hPad
    have hDrop : m.drop idx = m[idx] :: m.drop (idx + 1) := List.drop_eq_getElem_cons hIdx
    rw [hDrop, List.take_succ_cons] at hChunk
    rcases List.cons.inj hChunk with ⟨hHead, hTail⟩
    have hByte : m[idx]? = some b := by
      rw [hHead]
      exact List.getElem?_eq_getElem hIdx
    have hNext := take_set_succ hLen hDone hByte
    have hLen' : (buf.set idx b).length = m.length := by
      rw [List.length_set]
      exact hLen
    rw [List.cons_append, rcvCfLoop]
    by_cases hFull : buf.length ≤ idx + 1
    · rw [if_pos hFull]
      have hZero : chunk.length = 0 := by
        have hLe := congrArg List.length hTail
        rw [List.length_take, List.length_drop] at hLe
        omega
      refine ⟨buf.set idx b, ?_, hLen', ?_⟩
      · rw [List.length_cons, hZero]
      · rw [List.length_cons, hZero]
        exact hNext
    · rw [if_neg hFull]
      rcases ih hLen' hNext hTail (by omega)
        (fun hNe => by have := hPad hNe; omega) with
        ⟨buf', hLoop, hLast, hAll⟩
      refine ⟨buf', ?_, hLast, ?_⟩
      · rw [hLoop, List.length_cons]
        congr 1
        omega
      · rw [List.length_cons, show idx + (chunk.length + 1) = idx + 1 + chunk.length by omega]
        exact hAll

----
-- The Parts of a Frame
----

/- What stands in front of each frame. -/
def IsotpOptions.address
    (opt : IsotpOptions) : List UInt8 :=
  if opt.extendAddr then [opt.extAddress] else []

theorem IsotpOptions.address_length
    (opt : IsotpOptions) :
    opt.address.length = opt.ae := by
  unfold IsotpOptions.address IsotpOptions.ae
  split
  · rfl
  · rfl

theorem IsotpOptions.ae_le
    (opt : IsotpOptions) :
    opt.ae ≤ 1 := by
  unfold IsotpOptions.ae
  split
  · exact Nat.le_refl 1
  · exact Nat.zero_le 1

/- The frame has an address, a first byte, and the rest. -/
structure CanFrame.Holds
    (frame : CanFrame) (opt : IsotpOptions) (pci : UInt8)
    (rest : List UInt8) : Prop where
  id : frame.canId = opt.txId
  data : frame.data = opt.address ++ pci :: rest

section

variable {frame : CanFrame} {opt : IsotpOptions} {pci : UInt8} {rest : List UInt8}

section

variable (h : frame.Holds opt pci rest)

include h

theorem CanFrame.Holds.drop :
    frame.data.drop opt.ae = pci :: rest := by
  rw [h.data]
  exact List.drop_left' opt.address_length

theorem CanFrame.Holds.byte_add
    (i : Nat) :
    frame.byte (opt.ae + i) = (pci :: rest).getD i 0 := by
  unfold CanFrame.byte
  rw [← h.drop, List.getD_eq_getElem?_getD, List.getD_eq_getElem?_getD, List.getElem?_drop]

theorem CanFrame.Holds.byte_pci :
    frame.byte opt.ae = pci :=
  h.byte_add 0

theorem CanFrame.Holds.byte_address
    (hExt : opt.extendAddr = true) :
    frame.byte 0 = opt.extAddress := by
  unfold CanFrame.byte
  rw [h.data]
  unfold IsotpOptions.address
  rw [if_pos hExt]
  rfl

/- Bytes behind the first one. -/
theorem CanFrame.Holds.bytes
    {n : Nat} (i : Nat) (hEnd : n ≤ rest.length) :
    frame.bytes (opt.ae + 1 + i) (opt.ae + 1 + n) = (rest.drop i).take (n - i) := by
  have hLen : frame.data.length = opt.ae + (rest.length + 1) := by
    rw [h.data, List.length_append, opt.address_length, List.length_cons]
  rw [CanFrame.bytes_eq (by omega), ← List.drop_drop,
    ← List.drop_drop, h.drop, List.drop_succ_cons, List.drop_zero]
  congr 1
  omega

end

end

----
-- Data Frames
----

section

variable {opt : IsotpOptions} {snip : IsotpSnip} {idx : Nat}

/- The number of bytes in the next data frame. -/
def chunkLen
    (opt : IsotpOptions) (snip : IsotpSnip) (idx : Nat) : Nat :=
  min (7 - opt.ae) (snip.size - idx)

theorem numBytes_eq
    (hIdx : idx ≤ snip.size) (hSize : snip.size ≤ maxMsgLength) :
    min (canMaxDlen - (nPciSz + opt.ae))
        ((snip.size + 2 ^ 32 - idx) % 2 ^ 32) = chunkLen opt snip idx := by
  unfold chunkLen canMaxDlen nPciSz
  unfold maxMsgLength at hSize
  have hMod : (snip.size + 2 ^ 32 - idx) % 2 ^ 32 = snip.size - idx := by
    omega
  have hSpace : 8 - (1 + opt.ae) = 7 - opt.ae := by
    omega
  rw [hMod, hSpace]

theorem isotpFillDataframe_idx
    (hIdx : idx ≤ snip.size) (hSize : snip.size ≤ maxMsgLength) :
    (isotpFillDataframe opt snip idx).2 = idx + chunkLen opt snip idx := by
  unfold isotpFillDataframe
  dsimp only
  rw [numBytes_eq hIdx hSize]

/- The bytes, the address and the first byte of a frame. -/
theorem framed_data
    {chunk : List UInt8} (opt : IsotpOptions) (x pci : UInt8)
    (hFits : chunk.length ≤ 7 - opt.ae) :
    ((if opt.extendAddr = true then
        (storeBytes (List.replicate canMaxDlen x) (nPciSz + opt.ae) chunk).set 0 opt.extAddress
      else storeBytes (List.replicate canMaxDlen x) (nPciSz + opt.ae) chunk).set opt.ae pci) =
      opt.address ++ pci :: (chunk ++ List.replicate (7 - opt.ae - chunk.length) x) := by
  have hAe := opt.ae_le
  rw [storeBytes_eq (by
    rw [List.length_replicate]
    unfold canMaxDlen nPciSz
    omega), List.take_replicate, List.drop_replicate]
  unfold IsotpOptions.address canMaxDlen nPciSz
  have hRest : 8 - (1 + opt.ae + chunk.length) = 7 - opt.ae - chunk.length := by
    omega
  rw [hRest]
  cases hExt : opt.extendAddr with
  | true =>
    have hOne : opt.ae = 1 := by
      simp [IsotpOptions.ae, hExt]
    rw [hOne]
    rfl
  | false =>
    have hZero : opt.ae = 0 := by
      simp [IsotpOptions.ae, hExt]
    rw [hZero]
    rfl

/- Padding is only put behind the end of the message. -/
theorem isotpFillDataframe_holds
    {pci : UInt8} (hIdx : idx ≤ snip.size) (hSize : snip.size ≤ maxMsgLength) :
    ∃ chunk filler n, CanFrame.Holds ((isotpFillDataframe opt snip idx).1.setPci opt.ae pci)
          opt pci (chunk ++ filler) ∧ chunk.length = chunkLen opt snip idx ∧
        chunk = (snip.data.drop idx).take chunk.length ∧
        ((isotpFillDataframe opt snip idx).1.setPci opt.ae
            pci).canDlc = opt.ae + 1 + (chunk.length + n) ∧ n ≤ filler.length ∧
        (n ≠ 0 → idx + chunk.length = snip.size) := by
  have hAe := opt.ae_le
  have hLe : idx + chunkLen opt snip idx ≤ snip.size := by
    unfold chunkLen
    omega
  have hBytes := IsotpSnip.bytes_eq hLe
  have hLen : (snip.bytes idx (chunkLen opt snip idx)).length = chunkLen opt snip idx := by
    simp [IsotpSnip.bytes]
  have hSpace : chunkLen opt snip idx ≤ 7 - opt.ae := by
    unfold chunkLen
    omega
  by_cases hPad : chunkLen opt snip idx < canMaxDlen - (nPciSz + opt.ae) ∧ opt.txPadding = true
  · refine ⟨snip.bytes idx (chunkLen opt snip idx),
      List.replicate (7 - opt.ae - chunkLen opt snip idx) opt.txpadContent,
      7 - opt.ae - chunkLen opt snip idx, ⟨?_, ?_⟩, hLen, ?_, ?_, ?_, ?_⟩
    · rfl
    · unfold CanFrame.setPci isotpFillDataframe
      dsimp only
      rw [numBytes_eq hIdx hSize]
      simp only [hPad.1, hPad.2, decide_true, Bool.and_self, if_true]
      rw [framed_data opt _ _ (by rw [hLen]; exact hSpace), hLen]
    · rw [hLen, hBytes]
    · unfold CanFrame.setPci isotpFillDataframe
      dsimp only
      rw [numBytes_eq hIdx hSize]
      simp only [hPad.1, hPad.2, decide_true, Bool.and_self, if_true]
      rw [hLen]
      unfold canMaxDlen
      omega
    · exact Nat.le_of_eq List.length_replicate.symm
    · intro _
      rw [hLen]
      have hShort := hPad.1
      unfold canMaxDlen nPciSz at hShort
      unfold chunkLen at hShort ⊢
      omega
  · have hNot :
        (decide (chunkLen opt snip idx < canMaxDlen - (nPciSz + opt.ae)) && opt.txPadding) =
          false := by
      by_contra hTrue
      rw [Bool.not_eq_false, Bool.and_eq_true, decide_eq_true_eq] at hTrue
      exact hPad hTrue
    refine ⟨snip.bytes idx (chunkLen opt snip idx),
      List.replicate (7 - opt.ae - chunkLen opt snip idx) 0, 0,
      ⟨?_, ?_⟩, hLen, ?_, ?_, Nat.zero_le _, ?_⟩
    · rfl
    · unfold CanFrame.setPci isotpFillDataframe
      dsimp only
      rw [numBytes_eq hIdx hSize, hNot]
      exact (framed_data opt 0 pci (by rw [hLen]; exact hSpace)).trans (by rw [hLen])
    · rw [hLen, hBytes]
    · unfold CanFrame.setPci isotpFillDataframe
      dsimp only
      rw [numBytes_eq hIdx hSize, hNot, hLen]
      unfold nPciSz
      simp only [Bool.false_eq_true, if_false]
      omega
    · intro hNe
      exact absurd rfl hNe

end

----
-- First Bytes
----

theorem pciSf_spec
    {n : Nat} (hn : n < 16) :
    (nPciSf ||| UInt8.ofNat n) &&& 0xf0 = nPciSf ∧
      ((nPciSf ||| UInt8.ofNat n) &&& 0x0f).toNat = n := by
  revert n
  decide

theorem pciCf_spec
    {n : Nat} (hn : n < 16) :
    (nPciCf ||| UInt8.ofNat n) &&& 0xf0 = nPciCf ∧
      ((nPciCf ||| UInt8.ofNat n) &&& 0x0f).toNat = n := by
  revert n
  decide

theorem pciFf_spec
    {n : Nat} (hn : n < 16) :
    (UInt8.ofNat n ||| nPciFf) &&& 0xf0 = nPciFf ∧
      ((UInt8.ofNat n ||| nPciFf) &&& 0x0f).toNat = n := by
  revert n
  decide

/- The length of a message is read back from a first frame. -/
theorem ffLen_eq
    {n : Nat} (hn : n ≤ maxMsgLength) :
    ((UInt8.ofNat (n >>> 8) ||| nPciFf) &&& 0x0f).toNat <<< 8 + (UInt8.ofNat n).toNat = n := by
  unfold maxMsgLength at hn
  have hHigh : n >>> 8 < 16 := by
    rw [Nat.shiftRight_eq_div_pow]
    omega
  rw [(pciFf_spec hHigh).2, UInt8.toNat_ofNat', Nat.shiftLeft_eq, Nat.shiftRight_eq_div_pow]
  omega

----
-- The Frames of a Message
----

/- The bytes in the first frame and `k` consecutive ones. -/
def sentBytes
    (opt : IsotpOptions) (n k : Nat) : Nat :=
  min n (6 - opt.ae + k * (7 - opt.ae))

def ffFrame
    (opt : IsotpOptions) (snip : IsotpSnip) : CanFrame :=
  (isotpCreateFf opt snip 0).1

/- The consecutive frame with number `k + 1`. -/
def cfFrame
    (opt : IsotpOptions) (snip : IsotpSnip) (k : Nat) : CanFrame :=
  (isotpFillDataframe opt snip
    (sentBytes opt snip.size k)).1.setPci opt.ae (nPciCf ||| UInt8.ofNat ((k + 1) % 16))

section

variable {opt : IsotpOptions} {snip : IsotpSnip}

theorem sentBytes_le
    (n k : Nat) :
    sentBytes opt n k ≤ n :=
  Nat.min_le_left _ _

theorem sentBytes_succ
    (k : Nat) :
    sentBytes opt snip.size k + chunkLen opt snip (sentBytes opt snip.size k) =
      sentBytes opt snip.size (k + 1) := by
  unfold chunkLen sentBytes
  rw [Nat.succ_mul]
  omega

theorem sentBytes_mono
    {n j k : Nat} (hLe : k ≤ j) :
    sentBytes opt n k ≤ sentBytes opt n j := by
  unfold sentBytes
  have hMul := Nat.mul_le_mul_right (7 - opt.ae) hLe
  omega

/- A message is longer than its first frame. -/
theorem sentBytes_zero
    {n : Nat} (hLong : 7 - opt.ae < n) :
    sentBytes opt n 0 = 6 - opt.ae ∧ sentBytes opt n 0 < n := by
  unfold sentBytes
  omega

theorem sentBytes_lt
    {n k : Nat} (hMore : sentBytes opt n k < n) :
    sentBytes opt n k < sentBytes opt n (k + 1) := by
  have hAe := opt.ae_le
  unfold sentBytes at hMore ⊢
  rw [Nat.succ_mul]
  omega

theorem isotpCreateFf_idx :
    (isotpCreateFf opt snip 0).2 = 6 - opt.ae := by
  unfold isotpCreateFf canMaxDlen ffPciSz
  dsimp only
  omega

theorem ffFrame_holds
    (hLong : 7 - opt.ae < snip.size) :
    (ffFrame opt snip).Holds opt (UInt8.ofNat (snip.size >>> 8) ||| nPciFf)
        (UInt8.ofNat snip.size :: snip.data.take (6 - opt.ae)) ∧
      (ffFrame opt snip).canDlc = 8 := by
  refine ⟨⟨rfl, ?_⟩, rfl⟩
  have hAe := opt.ae_le
  unfold ffFrame isotpCreateFf
  dsimp only
  have hBytes : snip.bytes 0 (canMaxDlen - (opt.ae + ffPciSz)) = snip.data.take (6 - opt.ae) := by
    have hSix : canMaxDlen - (opt.ae + ffPciSz) = 6 - opt.ae := by
      unfold canMaxDlen ffPciSz
      omega
    rw [hSix, IsotpSnip.bytes_eq (by omega), List.drop_zero]
  have hLen : (snip.data.take (6 - opt.ae)).length = 6 - opt.ae := by
    rw [List.length_take]
    exact Nat.min_eq_left (by unfold IsotpSnip.size at hLong; omega)
  rw [hBytes]
  cases hExt : opt.extendAddr with
  | true =>
    have hOne : opt.ae = 1 := by
      simp [IsotpOptions.ae, hExt]
    unfold IsotpOptions.address
    rw [hOne] at hLen ⊢
    rw [storeBytes_eq (by rw [hLen]; exact Nat.le_refl 8), hLen]
    simp [hExt, canMaxDlen, ffPciSz]
  | false =>
    have hZero : opt.ae = 0 := by
      simp [IsotpOptions.ae, hExt]
    unfold IsotpOptions.address
    rw [hZero] at hLen ⊢
    rw [storeBytes_eq (by rw [hLen]; exact Nat.le_refl 8), hLen]
    simp [hExt, canMaxDlen, ffPciSz]

/- What a consecutive frame holds, and how it is numbered. -/
theorem cfFrame_holds
    (hSize : snip.size ≤ maxMsgLength) (k : Nat) :
    ∃ chunk filler n, (cfFrame opt snip k).Holds opt (nPciCf ||| UInt8.ofNat ((k + 1) % 16))
          (chunk ++ filler) ∧
        chunk = (snip.data.drop (sentBytes opt snip.size k)).take chunk.length ∧
        sentBytes opt snip.size k + chunk.length = sentBytes opt snip.size (k + 1) ∧
        (cfFrame opt snip k).canDlc = opt.ae + 1 + (chunk.length + n) ∧ n ≤ filler.length ∧
        (n ≠ 0 → sentBytes opt snip.size (k + 1) = snip.size) := by
  rcases @isotpFillDataframe_holds opt snip
    (sentBytes opt snip.size k)
    (nPciCf ||| UInt8.ofNat ((k + 1) % 16))
    (sentBytes_le snip.size k) hSize with
    ⟨chunk, filler, n, hHolds, hLen, hChunk, hDlc, hFill, hEnd⟩
  have hSum : sentBytes opt snip.size k + chunk.length = sentBytes opt snip.size (k + 1) := by
    rw [hLen]
    exact sentBytes_succ k
  refine ⟨chunk, filler, n, hHolds, hChunk, hSum, hDlc, hFill, ?_⟩
  intro hNe
  rw [← hSum]
  exact hEnd hNe

/- The flow control frame that is sent, and what is left. -/
theorem isotpSendFc_spec
    {env : IsotpEnv} {s : Isotp} {status : UInt8} (hSend : 0 ≤ env.rawCanSend) :
    ∃ fc filler, isotpSendFc env s status = { s with
            rx := { s.rx with bs := 0, txHandle := env.rawCanSend }
            rxTimer := some canIsotpTimeoutNAr
            frames := s.frames ++ [(env.rawCanSend, fc)] } ∧
        fc.Holds s.opt (nPciFc ||| status) (s.rxfc.bs :: s.rxfc.stmin :: filler) ∧
        s.opt.ae + 3 ≤ fc.canDlc := by
  have hAe := s.opt.ae_le
  have hData : ∀ x : UInt8, ∃ filler, (if s.opt.extendAddr = true then
            ((((List.replicate canMaxDlen x).set s.opt.ae (nPciFc ||| status)).set (s.opt.ae + 1)
                s.rxfc.bs).set (s.opt.ae + 2) s.rxfc.stmin).set 0 s.opt.extAddress
          else
            (((List.replicate canMaxDlen x).set s.opt.ae
              (nPciFc ||| status)).set (s.opt.ae + 1) s.rxfc.bs).set (s.opt.ae + 2) s.rxfc.stmin) =
          s.opt.address ++ (nPciFc ||| status) :: s.rxfc.bs :: s.rxfc.stmin :: filler := by
    intro x
    unfold IsotpOptions.address IsotpOptions.ae canMaxDlen
    cases s.opt.extendAddr with
    | true => exact ⟨List.replicate 4 x, rfl⟩
    | false => exact ⟨List.replicate 5 x, rfl⟩
  unfold isotpSendFc
  dsimp only
  rw [if_pos hSend]
  cases hPad : s.opt.txPadding with
  | true =>
    rcases hData s.opt.txpadContent with ⟨filler, hFiller⟩
    refine ⟨_, filler, rfl, ⟨rfl, ?_⟩, ?_⟩
    · exact hFiller
    · dsimp only
      rw [if_pos rfl]
      unfold canMaxDlen
      omega
  | false =>
    rcases hData 0 with ⟨filler, hFiller⟩
    refine ⟨_, filler, rfl, ⟨rfl, ?_⟩, ?_⟩
    · exact hFiller
    · dsimp only
      rw [if_neg (by simp)]
      exact Nat.le_refl _

end

end Riot
