import Mathlib.Data.Nat.ModEq
import Riot.Sys.RiotbootFlashwrite

/-
  Writing an image chunk by chunk: the pages written do not
  depend on the chunks, as long as the last chunk ends the
  last page.

  The calls of `riotboot_flashwrite_putbytes` are compared
  with a writer that takes one byte at a time.
-/

----
-- Calls
----

namespace Riot

variable {bytes : List UInt8} {more : Bool}

/- What a call leaves behind if it does not fail. -/
def passed
    (result : Option (Int × Flashwrite × Flash)) :
    Option (Flashwrite × Flash) :=
  result.bind (fun r => if r.1 = 0 then some (r.2.1, r.2.2) else none)

/-
  The calls for the chunks of an image, with `more` set for
  all but the last, if none of them fails.
-/
def putChunks
    (dev : FlashDevice) :
    Flashwrite × Flash → List (List UInt8) → List UInt8 → Option (Flashwrite × Flash)
| w, [], last => passed (riotbootFlashwritePutbytes dev w.1 w.2 last false)
| w, chunk :: chunks, last =>
  (passed
    (riotbootFlashwritePutbytes dev w.1 w.2 chunk true)).bind
    (fun w' => putChunks dev w' chunks last)

/- Write an image in chunks, from the start of the update. -/
def writeImage
    (dev : FlashDevice) (mem : ByteMem) (targetSlot offset : Nat) (chunks : List (List UInt8))
    (last : List UInt8) : Option (Flashwrite × Flash) :=
  (riotbootFlashwriteInitRaw dev targetSlot offset).bind
    (fun state =>
      putChunks dev (state, { mem, written := [] }) chunks last)

----
-- A Byte at a Time
----

/- Write the page in the buffer, and go to the next page. -/
def flushPage
    (dev : FlashDevice) (w : Flashwrite × Flash) : Option (Flashwrite × Flash) :=
  (flashpageWriteAndVerify dev w.2 w.1.flashpage
      (w.1.flashpageBuf.read 0 dev.flashpageSize)).bind
    (fun r =>
      if r.1 = true then
        some ({ w.1 with flashpage := w.1.flashpage + 1 }, r.2)
      else
        none)

/- Put one byte, and write the page if this fills it. -/
def putByte
    (dev : FlashDevice) (w : Flashwrite × Flash) (b : UInt8) : Option (Flashwrite × Flash) :=
  let state := w.1.copy dev [b]
  if state.offset % dev.flashpageSize = 0 then
    flushPage dev (state, w.2)
  else
    some (state, w.2)

/- Put the bytes one after the other. -/
def putBytes
    (dev : FlashDevice) :
    Flashwrite × Flash → List UInt8 → Option (Flashwrite × Flash)
| w, [] => some w
| w, b :: bs => (putByte dev w b).bind (fun w' => putBytes dev w' bs)

/- Write the last page, unless it has just been filled. -/
def endPage
    (dev : FlashDevice) (w : Flashwrite × Flash) : Option (Flashwrite × Flash) :=
  if w.1.offset % dev.flashpageSize = 0 then
    some w
  else
    flushPage dev w

variable {dev : FlashDevice} {w w' : Flashwrite × Flash}

theorem putBytes_append
    (as bs : List UInt8) :
    putBytes dev w (as ++ bs) = (putBytes dev w as).bind (fun w' => putBytes dev w' bs) := by
  induction as generalizing w with
  | nil => rfl
  | cons a as ih => simp only [List.cons_append, putBytes, ih, Option.bind_assoc]

/- Positions in a page. -/
theorem mod_add_of_lt
    {a k p : Nat} (hLt : a % p + k < p) :
    (a + k) % p = a % p + k := by
  rw [Nat.add_mod, Nat.mod_eq_of_lt (a := k) (by omega), Nat.mod_eq_of_lt hLt]

theorem mod_add_eq_zero_iff
    {a k p : Nat} (hPos : 0 < k) (hLe : a % p + k ≤ p) :
    (a + k) % p = 0 ↔ a % p + k = p := by
  rcases Nat.lt_or_ge (a % p + k) p with hLt | hGe
  · rw [mod_add_of_lt hLt]
    omega
  · have hEq : a % p + k = p := by omega
    have hDiv := Nat.div_add_mod a p
    have hSum : a + k = p * (a / p) + p := by omega
    rw [hSum, Nat.mul_add_mod, Nat.mod_self]
    simp only [hEq]

/- Copying inside a page can be done in two parts. -/
theorem copy_copy
    {state : Flashwrite} {as bs : List UInt8}
    (hFits : state.offset % dev.flashpageSize + as.length < dev.flashpageSize) :
    (state.copy dev as).copy dev bs = state.copy dev (as ++ bs) := by
  simp only [Flashwrite.copy, mod_add_of_lt hFits,
    ByteMem.write_write, List.length_append, Nat.add_assoc]

/-
  A run of bytes inside a page: the page is written if they
  end it, and only then.
-/
theorem putBytes_of_le
    (hSome : bytes ≠ [])
    (hFits : w.1.offset % dev.flashpageSize + bytes.length ≤ dev.flashpageSize) :
    putBytes dev w bytes = if w.1.offset % dev.flashpageSize + bytes.length =
          dev.flashpageSize then
        flushPage dev (w.1.copy dev bytes, w.2)
      else some (w.1.copy dev bytes, w.2) := by
  induction bytes generalizing w with
  | nil => exact absurd rfl hSome
  | cons b bs ih =>
    rw [List.length_cons] at hFits ⊢
    have hOffset : (w.1.copy dev [b]).offset = w.1.offset + 1 := rfl
    have hFull : (w.1.offset + 1) % dev.flashpageSize = 0 ↔ w.1.offset % dev.flashpageSize + 1 =
            dev.flashpageSize :=
      mod_add_eq_zero_iff Nat.one_pos (by omega)
    cases bs with
    | nil =>
      simp only [putBytes, putByte, hOffset, List.length_nil,
        Nat.zero_add, Option.bind_fun_some, hFull]
    | cons c cs =>
      rw [List.length_cons] at hFits
      have hNext : (w.1.offset + 1) % dev.flashpageSize = w.1.offset % dev.flashpageSize + 1 :=
        mod_add_of_lt (by omega)
      have hPut : putByte dev w b = some (w.1.copy dev [b], w.2) := by
        rw [putByte, if_neg (by rw [hOffset, hNext]; omega)]
      have hRest := @ih (w.1.copy dev [b], w.2) (List.cons_ne_nil c cs)
          (by rw [hOffset, hNext, List.length_cons]; omega)
      rw [putBytes, hPut, Option.bind_some, hRest, copy_copy (by rw [List.length_singleton]; omega),
        hOffset, hNext, List.singleton_append, List.length_cons]
      have hIff : w.1.offset % dev.flashpageSize + 1 + (cs.length + 1) = dev.flashpageSize ↔
            w.1.offset % dev.flashpageSize + (cs.length + 1 + 1) = dev.flashpageSize := by
        omega
      simp only [hIff]

/- The step that the loop makes for a part of a page. -/
theorem passed_flush
    {state : Flashwrite} {flash : Flash}
    {k : Flashwrite → Flash → Option (Int × Flashwrite × Flash)} :
    passed (match flashpageWriteAndVerify dev flash state.flashpage
          (state.flashpageBuf.read 0 dev.flashpageSize) with
      | none => none
      | some (false, flash) => some (-1, state, flash)
      | some (true, flash) => k { state with flashpage := state.flashpage + 1 } flash) =
      (flushPage dev (state, flash)).bind (fun w => passed (k w.1 w.2)) := by
  unfold flushPage
  cases flashpageWriteAndVerify dev flash state.flashpage
      (state.flashpageBuf.read 0 dev.flashpageSize) with
  | none => rfl
  | some r =>
    rcases r with ⟨_ | _, flash'⟩
    · rfl
    · rfl

/- A call without fault is a run of the byte writer. -/
def closeCall
    (dev : FlashDevice) (more : Bool) (bytes : List UInt8)
    (w : Flashwrite × Flash) : Option (Flashwrite × Flash) :=
  if more = true ∨ bytes = [] then
    some w
  else
    endPage dev w

/- After a full page there is nothing to end. -/
theorem closeCall_of_full
    (hFull : w.1.offset % dev.flashpageSize = 0) :
    closeCall dev more bytes w = some w := by
  unfold closeCall endPage
  rw [if_pos hFull, ite_self]

theorem flushPage_offset
    (hFlush : flushPage dev w = some w') :
    w'.1.offset = w.1.offset := by
  rcases Option.bind_eq_some_iff.mp hFlush with ⟨r, -, hRes⟩
  split at hRes
  · cases hRes
    rfl
  · cases hRes

/- The room in the current page. -/
def flashpageAvail
    (dev : FlashDevice) (state : Flashwrite) : Nat :=
  dev.flashpageSize - state.offset % dev.flashpageSize

/- An iteration for bytes that do not fill the page. -/
theorem passed_putbytesLoop_short
    {fuel : Nat} (hSome : bytes ≠ [])
    (hLt : bytes.length < flashpageAvail dev w.1) :
    passed (putbytesLoop dev more (fuel + 1) w.1 w.2 bytes) = if more = true then
        some (w.1.copy dev bytes, w.2)
      else flushPage dev (w.1.copy dev bytes, w.2) := by
  rcases List.exists_cons_of_ne_nil hSome with ⟨b, bs, rfl⟩
  unfold flashpageAvail at hLt
  have hMin : min (dev.flashpageSize -
          w.1.offset % dev.flashpageSize) (b :: bs).length = (b :: bs).length :=
    Nat.min_eq_right (Nat.le_of_lt hLt)
  rw [putbytesLoop]
  · simp only [hMin, List.take_length, List.drop_length]
    cases more with
    | true =>
      have hRoom : ¬ (dev.flashpageSize - w.1.offset % dev.flashpageSize -
              (b :: bs).length = 0 ∨ true = false) := by
        rintro (hZero | hFalse)
        · omega
        · cases hFalse
      rw [if_neg hRoom, if_pos rfl, putbytesLoop]
      rfl
    | false =>
      rw [if_pos (Or.inr rfl), if_neg Bool.false_ne_true]
      refine (passed_flush (k := fun s f =>
            putbytesLoop dev false fuel s f [])).trans ?_
      simp only [putbytesLoop, passed, Option.bind_some, if_true]
      exact Option.bind_fun_some _
  · intro h
    cases h

/- An iteration that fills the page. -/
theorem passed_putbytesLoop_full
    {fuel : Nat} (hSome : bytes ≠ [])
    (hGe : flashpageAvail dev w.1 ≤ bytes.length) :
    passed (putbytesLoop dev more (fuel + 1) w.1 w.2 bytes) = (flushPage dev
        (w.1.copy dev (bytes.take (flashpageAvail dev w.1)), w.2)).bind
        (fun w' =>
          passed (putbytesLoop dev more fuel w'.1 w'.2 (bytes.drop (flashpageAvail dev w.1)))) := by
  rcases List.exists_cons_of_ne_nil hSome with ⟨b, bs, rfl⟩
  unfold flashpageAvail at hGe ⊢
  have hMin : min (dev.flashpageSize - w.1.offset % dev.flashpageSize) (b :: bs).length =
        dev.flashpageSize - w.1.offset % dev.flashpageSize :=
    Nat.min_eq_left hGe
  rw [putbytesLoop]
  · simp only [hMin]
    rw [if_pos (Or.inl (Nat.sub_self _))]
    exact passed_flush (k := fun s f => putbytesLoop dev more fuel s f _)
  · intro h
    cases h

/- The loop is a run of the byte writer. -/
theorem passed_putbytesLoop
    {fuel : Nat} (hFuel : bytes.length ≤ fuel) :
    passed (putbytesLoop dev more fuel w.1 w.2 bytes) =
      (putBytes dev w bytes).bind (closeCall dev more bytes) := by
  -- Each iteration handles the part of the bytes that is in
  -- the current page; the part after it is the rest.
  induction fuel generalizing w bytes with
  | zero =>
    have hNil : bytes = [] := List.eq_nil_of_length_eq_zero (by omega)
    subst hNil
    simp [putbytesLoop, passed, putBytes, closeCall]
  | succ fuel ih =>
    by_cases hSome : bytes = []
    · subst hSome
      simp [putbytesLoop, passed, putBytes, closeCall]
    have hMod := Nat.mod_lt w.1.offset dev.size_pos
    have hLen := List.length_pos_iff.mpr hSome
    rcases Nat.lt_or_ge bytes.length (flashpageAvail dev w.1) with hLt | hGe
    · rw [passed_putbytesLoop_short hSome hLt]
      unfold flashpageAvail at hLt
      have hOffset : (w.1.offset + bytes.length) % dev.flashpageSize ≠ 0 := by
        rw [mod_add_of_lt (by omega)]
        omega
      have hNot : w.1.offset % dev.flashpageSize + bytes.length ≠ dev.flashpageSize := by
        omega
      rw [putBytes_of_le hSome (by omega), if_neg hNot, Option.bind_some]
      simp only [closeCall, hSome, or_false, endPage, Flashwrite.copy, hOffset, if_false]
    · rw [passed_putbytesLoop_full hSome hGe]
      have hTake : (bytes.take (flashpageAvail dev w.1)).length = flashpageAvail dev w.1 :=
        List.length_take_of_le hGe
      have hAvail :
          w.1.offset % dev.flashpageSize + flashpageAvail dev w.1 = dev.flashpageSize := by
        unfold flashpageAvail
        omega
      have hPart : bytes.take (flashpageAvail dev w.1) ≠ [] := by
        rw [← List.length_pos_iff, hTake]
        omega
      conv_rhs =>
        rw [← List.take_append_drop (flashpageAvail dev w.1) bytes, putBytes_append]
      rw [putBytes_of_le hPart (by omega), if_pos (by omega), Option.bind_assoc]
      apply Option.bind_congr
      intro w' hFlush
      rw [ih (by rw [List.length_drop]; omega)]
      by_cases hRest : bytes.drop (flashpageAvail dev w.1) = []
      · have hFull : w'.1.offset % dev.flashpageSize = 0 := by
          rw [flushPage_offset hFlush]
          have hEnd := (mod_add_eq_zero_iff (by omega) (Nat.le_of_eq hAvail)).mpr hAvail
          simpa only [Flashwrite.copy, hTake] using hEnd
        rw [hRest, putBytes, Option.bind_some, Option.bind_some, closeCall_of_full hFull,
          closeCall_of_full hFull]
      · apply Option.bind_congr
        intro w'' _
        rw [List.take_append_drop]
        simp only [closeCall, hRest, hSome]

/- The calls for all chunks are a run of the byte writer. -/
theorem putChunks_eq
    (chunks : List (List UInt8)) (last : List UInt8) :
    putChunks dev w chunks last =
      (putBytes dev w (chunks.flatten ++ last)).bind (closeCall dev false last) := by
  induction chunks generalizing w with
  | nil => exact passed_putbytesLoop (Nat.le_refl _)
  | cons chunk chunks ih =>
    have hCall :
        passed (riotbootFlashwritePutbytes dev w.1 w.2 chunk true) = putBytes dev w chunk := by
      refine (passed_putbytesLoop (Nat.le_refl _)).trans ?_
      exact Option.bind_fun_some _
    rw [putChunks, hCall, List.flatten_cons, List.append_assoc, putBytes_append, Option.bind_assoc]
    exact Option.bind_congr (fun w' _ => ih)

----
-- Written Images
----

/- A page write that passes the check. -/
theorem writeAndVerify_spec
    {flash flash' : Flash} {page : Nat} {data : List UInt8}
    (hWrite : flashpageWriteAndVerify dev flash page data = some (true, flash')) :
    flash'.written = flash.written ++ [(page, data)] ∧
    flash'.mem.read (page * dev.flashpageSize) dev.flashpageSize = data ∧ ∀ x,
      x < page * dev.flashpageSize ∨ (page + 1) * dev.flashpageSize ≤ x →
      flash'.mem.byte x = flash.mem.byte x := by
  unfold flashpageWriteAndVerify at hWrite
  split at hWrite
  · have hPair := Option.some.inj hWrite
    have hVerify := (Prod.mk.inj hPair).1
    rw [← (Prod.mk.inj hPair).2]
    exact ⟨rfl, of_decide_eq_true hVerify, fun x hOut =>
        dev.write_frame _ _ _ x hOut⟩
  · cases hWrite

/- What a page write leaves behind. -/
theorem flushPage_spec
    (hFlush : flushPage dev w = some w') :
    w'.1 = { w.1 with flashpage := w.1.flashpage + 1 } ∧
    w'.2.written.map Prod.fst = w.2.written.map Prod.fst ++ [w.1.flashpage] ∧
    (∀ j < dev.flashpageSize,
      w'.2.mem.byte (w.1.flashpage * dev.flashpageSize + j) = w.1.flashpageBuf.byte j) ∧
    ∀ x < w.1.flashpage * dev.flashpageSize, w'.2.mem.byte x = w.2.mem.byte x := by
  unfold flushPage at hFlush
  rcases Option.bind_eq_some_iff.mp hFlush with ⟨⟨ok, flash⟩, hWrite, hRes⟩
  cases ok with
  | false => cases hRes
  | true =>
    cases hRes
    rcases writeAndVerify_spec hWrite with ⟨hLog, hRead, hFrame⟩
    refine ⟨rfl, ?_, ?_, ?_⟩
    · rw [hLog, List.map_append]
      rfl
    · intro j hLt
      have hByte := ByteMem.byte_eq_of_read_eq hRead hLt
      rwa [Nat.zero_add] at hByte
    · intro x hLt
      exact hFrame x (Or.inl hLt)

/-
  After the bytes of `image`, put from the offset `offset` in
  the page `page` on: the full pages are in the flash, and
  the bytes of the current page are in the buffer.
-/
structure Written
    (dev : FlashDevice) (page offset : Nat) (image : List UInt8)
    (w : Flashwrite × Flash) : Prop where
  offset_eq : w.1.offset % dev.flashpageSize = (offset + image.length) % dev.flashpageSize
  flashpage_eq : w.1.flashpage = page + (offset + image.length) / dev.flashpageSize
  pages_eq : w.2.written.map Prod.fst =
    (List.range ((offset + image.length) / dev.flashpageSize)).map (fun k => page + k)
  stored :
    ∀ i b, image[i]? = some b →
      (offset + i) / dev.flashpageSize < (offset + image.length) / dev.flashpageSize →
      w.2.mem.byte (page * dev.flashpageSize + (offset + i)) = b
  buffered :
    ∀ i b, image[i]? = some b →
      (offset + i) / dev.flashpageSize = (offset + image.length) / dev.flashpageSize →
      w.1.flashpageBuf.byte ((offset + i) % dev.flashpageSize) = b

section

variable {page offset : Nat} {image : List UInt8} {b : UInt8}

/- The buffer with the next byte. -/
theorem Written.buffered_copy
    (hWritten : Written dev page offset image w) (b : UInt8) {i : Nat} {c : UInt8}
    (hByte : (image ++ [b])[i]? = some c)
    (hPage : (offset + i) / dev.flashpageSize = (offset + image.length) / dev.flashpageSize) :
    (w.1.copy dev [b]).flashpageBuf.byte ((offset + i) % dev.flashpageSize) = c := by
  have hDiv := Nat.div_add_mod (offset + i) dev.flashpageSize
  have hDivEnd := Nat.div_add_mod (offset + image.length) dev.flashpageSize
  rw [hPage] at hDiv
  simp only [Flashwrite.copy, hWritten.offset_eq]
  rcases Nat.lt_or_ge i image.length with hLt | hGe
  · rw [List.getElem?_append_left hLt] at hByte
    rw [ByteMem.write_of_not_mem (by rw [List.length_singleton]; omega)]
    exact hWritten.buffered i c hByte hPage
  · have hEq : i = image.length := by
      have hEnd := (List.getElem?_eq_some_iff.mp hByte).1
      rw [List.length_append, List.length_singleton] at hEnd
      omega
    subst hEq
    rw [List.getElem?_concat_length] at hByte
    cases hByte
    have hOne : 0 < [b].length := Nat.one_pos
    exact ByteMem.write_getElem hOne

/- The next byte, if it does not fill the page. -/
theorem Written.copy
    (hWritten : Written dev page offset image w)
    (hRoom : (offset + (image.length + 1)) % dev.flashpageSize ≠ 0) :
    Written dev page offset (image ++ [b]) (w.1.copy dev [b], w.2) := by
  have hLen : (image ++ [b]).length = image.length + 1 := List.length_append
  have hDiv : (offset + (image.length + 1)) / dev.flashpageSize =
        (offset + image.length) / dev.flashpageSize := by
    have hNot : ¬ dev.flashpageSize ∣ offset + image.length + 1 :=
      fun hDvd => hRoom (Nat.mod_eq_zero_of_dvd hDvd)
    rw [← Nat.add_assoc, Nat.succ_div, if_neg hNot, Nat.add_zero]
  refine ⟨?_, ?_, ?_, ?_, ?_⟩
  · rw [hLen, ← Nat.add_assoc]
    exact Nat.ModEq.add_right 1 hWritten.offset_eq
  · rw [hLen, hDiv]
    exact hWritten.flashpage_eq
  · rw [hLen, hDiv]
    exact hWritten.pages_eq
  · intro i c hByte hPage
    rw [hLen, hDiv] at hPage
    have hLt : i < image.length := by
      by_contra hGe
      have hMono := Nat.div_le_div_right (c := dev.flashpageSize)
          (show offset + image.length ≤ offset + i by omega)
      omega
    rw [List.getElem?_append_left hLt] at hByte
    exact hWritten.stored i c hByte hPage
  · intro i c hByte hPage
    rw [hLen, hDiv] at hPage
    exact hWritten.buffered_copy b hByte hPage

/- A page write brings the bytes of the page to the flash. -/
theorem stored_flushPage
    {q : Nat} (hFlush : flushPage dev w = some w')
    (hPage : w.1.flashpage = page + q)
    (hStored : ∀ i b, image[i]? = some b → (offset + i) / dev.flashpageSize < q →
        w.2.mem.byte (page * dev.flashpageSize + (offset + i)) = b)
    (hBuffered : ∀ i b, image[i]? = some b → (offset + i) / dev.flashpageSize = q →
        w.1.flashpageBuf.byte ((offset + i) % dev.flashpageSize) = b)
    {i : Nat}
    (hByte : image[i]? = some b)
    (hLe : (offset + i) / dev.flashpageSize ≤ q) :
    w'.2.mem.byte (page * dev.flashpageSize + (offset + i)) = b := by
  rcases flushPage_spec hFlush with ⟨-, -, hNew, hOld⟩
  rw [hPage] at hNew hOld
  have hDiv := Nat.div_add_mod (offset + i) dev.flashpageSize
  have hMod := Nat.mod_lt (offset + i) dev.size_pos
  have hStart :
      (page + q) * dev.flashpageSize = page * dev.flashpageSize + dev.flashpageSize * q := by
    rw [Nat.add_mul, Nat.mul_comm q]
  rw [hStart] at hNew hOld
  rcases Nat.lt_or_eq_of_le hLe with hLt | hEq
  · have hMul : dev.flashpageSize * ((offset + i) / dev.flashpageSize) +
          dev.flashpageSize ≤ dev.flashpageSize * q := by
      rw [← Nat.mul_succ]
      exact Nat.mul_le_mul_left _ hLt
    rw [hOld _ (by omega)]
    exact hStored i b hByte hLt
  · have hAddr : page * dev.flashpageSize + (offset + i) =
          page * dev.flashpageSize + dev.flashpageSize * q + (offset + i) % dev.flashpageSize := by
      rw [← hEq]
      omega
    rw [hAddr, hNew _ hMod]
    exact hBuffered i b hByte hEq

section

variable (hWritten : Written dev page offset image w)

include hWritten

/- The next byte, if it fills the page. -/
theorem Written.flush
    (hFull : (offset + (image.length + 1)) % dev.flashpageSize = 0)
    (hFlush : flushPage dev (w.1.copy dev [b], w.2) = some w') :
    Written dev page offset (image ++ [b]) w' := by
  have hLen : (image ++ [b]).length = image.length + 1 := List.length_append
  have hDiv : (offset + (image.length + 1)) / dev.flashpageSize =
        (offset + image.length) / dev.flashpageSize + 1 := by
    have hDvd : dev.flashpageSize ∣ offset + image.length + 1 := Nat.dvd_of_mod_eq_zero hFull
    rw [← Nat.add_assoc, Nat.succ_div, if_pos hDvd]
  rcases flushPage_spec hFlush with ⟨hState, hPages, -, -⟩
  refine ⟨?_, ?_, ?_, ?_, ?_⟩
  · rw [hLen, ← Nat.add_assoc, hState]
    exact Nat.ModEq.add_right 1 hWritten.offset_eq
  · rw [hLen, hDiv, hState, ← Nat.add_assoc, ← hWritten.flashpage_eq]
    rfl
  · have hPage := hWritten.flashpage_eq
    rw [hPages, hWritten.pages_eq, hLen, hDiv, List.range_succ, List.map_append]
    simp only [Flashwrite.copy, hPage, List.map_cons, List.map_nil]
  · intro i c hByte hPage
    rw [hLen, hDiv] at hPage
    refine stored_flushPage hFlush hWritten.flashpage_eq ?_
        (fun i c => hWritten.buffered_copy b) hByte
        (Nat.le_of_lt_succ hPage)
    intro i c hByte hLt
    have hOld : i < image.length := by
      by_contra hGe
      have hMono := Nat.div_le_div_right (c := dev.flashpageSize)
          (show offset + image.length ≤ offset + i by omega)
      omega
    rw [List.getElem?_append_left hOld] at hByte
    exact hWritten.stored i c hByte hLt
  · intro i c hByte hPage
    have hLt := (List.getElem?_eq_some_iff.mp hByte).1
    have hMono := Nat.div_le_div_right (c := dev.flashpageSize)
        (show offset + i ≤ offset + image.length by omega)
    rw [hLen, hDiv] at hPage
    omega

/- The byte writer, step by step and over a whole image. -/
theorem Written.putByte
    (hPut : Riot.putByte dev w b = some w') :
    Written dev page offset (image ++ [b]) w' := by
  have hMod : (w.1.copy dev [b]).offset % dev.flashpageSize =
        (offset + (image.length + 1)) % dev.flashpageSize :=
    Nat.ModEq.add_right 1 hWritten.offset_eq
  simp only [Riot.putByte] at hPut
  split at hPut
  · rename_i hFull
    exact hWritten.flush (hMod.symm.trans hFull) hPut
  · rename_i hRoom
    cases hPut
    exact hWritten.copy (fun h => hRoom (hMod.trans h))

theorem Written.putBytes
    {bytes : List UInt8} (hPut : Riot.putBytes dev w bytes = some w') :
    Written dev page offset (image ++ bytes) w' := by
  induction bytes generalizing w image with
  | nil =>
    cases hPut
    rw [List.append_nil]
    exact hWritten
  | cons b bs ih =>
    rcases Option.bind_eq_some_iff.mp hPut with ⟨w₁, hByte, hRest⟩
    have hAll := ih (hWritten.putByte hByte) hRest
    rwa [List.append_assoc] at hAll

end

/- The start of an update. -/
theorem written_initRaw
    {state : Flashwrite} (mem : ByteMem) {targetSlot hdr : Nat}
    (hHdr : riotbootSlotGetHdr dev targetSlot = some hdr)
    (hInit : riotbootFlashwriteInitRaw dev targetSlot offset = some state) :
    Written dev (hdr / dev.flashpageSize) (offset % dev.flashpageSize) []
      (state, { mem, written := [] }) := by
  unfold riotbootFlashwriteInitRaw at hInit
  rw [hHdr] at hInit
  split at hInit
  · cases hInit
    have hZero : offset % dev.flashpageSize / dev.flashpageSize = 0 :=
      Nat.div_eq_of_lt (Nat.mod_lt _ dev.size_pos)
    refine ⟨?_, ?_, ?_, ?_, ?_⟩
    · exact (Nat.mod_mod _ _).symm
    · rw [List.length_nil, Nat.add_zero, hZero]
      rfl
    · rw [List.length_nil, Nat.add_zero, hZero]
      rfl
    · intro i b hByte
      cases hByte
    · intro i b hByte
      cases hByte
  · cases hInit

/- The pages that an image ends in. -/
def pagesFilled
    (dev : FlashDevice) (offset len : Nat) : Nat :=
  (offset + len) / dev.flashpageSize +
    if (offset + len) % dev.flashpageSize = 0 then 0 else 1

/- The end of the last page. -/
theorem Written.endPage
    (hWritten : Written dev page offset image w)
    (hEnd : Riot.endPage dev w = some w') :
    w'.2.written.map Prod.fst =
      (List.range (pagesFilled dev offset image.length)).map (fun k => page + k) ∧
    ∀ i b, image[i]? = some b → w'.2.mem.byte (page * dev.flashpageSize + (offset + i)) = b := by
  have hLe : ∀ i b, image[i]? = some b →
        (offset + i) / dev.flashpageSize ≤ (offset + image.length) / dev.flashpageSize := by
    intro i b hByte
    have hLt := (List.getElem?_eq_some_iff.mp hByte).1
    exact Nat.div_le_div_right (by omega)
  unfold Riot.endPage at hEnd
  unfold pagesFilled
  rw [hWritten.offset_eq] at hEnd
  split at hEnd
  · rename_i hFull
    cases hEnd
    rw [if_pos hFull]
    refine ⟨hWritten.pages_eq, ?_⟩
    intro i b hByte
    apply hWritten.stored i b hByte
    have hLt := (List.getElem?_eq_some_iff.mp hByte).1
    rw [Nat.div_lt_iff_lt_mul dev.size_pos, Nat.div_mul_cancel (Nat.dvd_of_mod_eq_zero hFull)]
    omega
  · rename_i hRest
    rw [if_neg hRest]
    refine ⟨?_, ?_⟩
    · rw [(flushPage_spec hEnd).2.1, hWritten.pages_eq,
        hWritten.flashpage_eq, List.range_succ, List.map_append]
      rfl
    · intro i b hByte
      exact stored_flushPage hEnd hWritten.flashpage_eq
          hWritten.stored hWritten.buffered hByte
          (hLe i b hByte)

end

----
-- Independence of the Chunks
----

section

variable {mem : ByteMem} {targetSlot hdr offset : Nat}
variable {chunks : List (List UInt8)} {last image : List UInt8}

/-
  The image is where it belongs, only pages that it touches
  have been written, and a single call with all of it writes
  the same pages with the same contents.
-/
structure ImageWritten
    (dev : FlashDevice) (mem : ByteMem) (targetSlot hdr offset : Nat) (image : List UInt8)
    (flash : Flash) : Prop where
  bytes : ∀ i b, image[i]? = some b → flash.mem.byte (hdr + offset + i) = b
  covering :
    ∀ page data, (page, data) ∈ flash.written →
      page * dev.flashpageSize < hdr + offset + image.length ∧
      hdr + offset < (page + 1) * dev.flashpageSize
  single :
    ∃ w, writeImage dev mem targetSlot offset [] image = some w ∧
      (∀ p, p ∈ flash.written ↔ p ∈ w.2.written) ∧ flash.mem = w.2.mem

/- An update runs the byte writer from the slot's first page. -/
theorem writeImage_eq_some
    (hHdr : riotbootSlotGetHdr dev targetSlot = some hdr)
    (hRun : writeImage dev mem targetSlot offset chunks last = some w') :
    ∃ w, offset ≤ dev.flashpageSize ∧ Written dev (hdr / dev.flashpageSize)
        (offset % dev.flashpageSize) (chunks.flatten ++ last) w ∧
      closeCall dev false last w = some w' := by
  rcases Option.bind_eq_some_iff.mp hRun with ⟨state, hInit, hPut⟩
  rw [putChunks_eq] at hPut
  rcases Option.bind_eq_some_iff.mp hPut with ⟨w, hBytes, hClose⟩
  have hLe : offset ≤ dev.flashpageSize := by
    by_contra hGt
    unfold riotbootFlashwriteInitRaw at hInit
    rw [if_neg hGt] at hInit
    cases hInit
  have hStart := written_initRaw mem hHdr hInit
  refine ⟨w, hLe, ?_, hClose⟩
  exact hStart.putBytes hBytes

/-
  If the last call has bytes, or the page has just been
  filled, the calls do what one call does.
-/
theorem writeImage_single
    (hHdr : riotbootSlotGetHdr dev targetSlot = some hdr)
    (hLast : chunks.flatten ++ last = [] ∨ last ≠ [] ∨
      (offset + (chunks.flatten ++ last).length) % dev.flashpageSize = 0)
    (hRun : writeImage dev mem targetSlot offset chunks last = some w') :
    writeImage dev mem targetSlot offset [] (chunks.flatten ++ last) = some w' := by
  rcases Option.bind_eq_some_iff.mp hRun with ⟨state, hInit, hPut⟩
  rw [putChunks_eq] at hPut
  rcases Option.bind_eq_some_iff.mp hPut with ⟨w, hBytes, hClose⟩
  have hOffset := (Written.putBytes (written_initRaw mem hHdr hInit) hBytes).offset_eq
  rw [List.nil_append, Nat.mod_add_mod] at hOffset
  refine Option.bind_eq_some_iff.mpr ⟨state, hInit, ?_⟩
  rw [putChunks_eq, List.flatten_nil, List.nil_append]
  refine Option.bind_eq_some_iff.mpr ⟨w, hBytes, ?_⟩
  rcases hLast with hNil | hSome | hFull
  · rw [hNil]
    rw [(List.append_eq_nil_iff.mp hNil).2] at hClose
    exact hClose
  · have hAll : chunks.flatten ++ last ≠ [] := fun h => hSome (List.append_eq_nil_iff.mp h).2
    simp only [closeCall, hSome, hAll] at hClose ⊢
    exact hClose
  · rw [hFull] at hOffset
    rw [closeCall_of_full hOffset] at hClose ⊢
    exact hClose

/- The pages of an image start in the slot's first page. -/
theorem pagesFilled_pos
    {len : Nat} (hPos : 0 < len) :
    0 < pagesFilled dev offset len := by
  have hDiv := Nat.div_add_mod (offset + len) dev.flashpageSize
  unfold pagesFilled
  split
  · rename_i hFull
    apply Nat.pos_of_ne_zero
    intro hQuot
    rw [Nat.add_zero] at hQuot
    rw [hQuot, hFull, Nat.mul_zero] at hDiv
    omega
  · exact Nat.succ_pos _

/- The pages filled by an image are pages that it touches. -/
theorem covering_of_pagesFilled
    {len k : Nat} (hOffset : offset < dev.flashpageSize)
    (hk : k < pagesFilled dev offset len) :
    k * dev.flashpageSize < offset + len ∧ offset < (k + 1) * dev.flashpageSize := by
  have hDiv := Nat.div_add_mod (offset + len) dev.flashpageSize
  have hMul : k * dev.flashpageSize ≤ dev.flashpageSize * ((offset + len) / dev.flashpageSize) ∧
      (k < (offset + len) / dev.flashpageSize → (k + 1) * dev.flashpageSize ≤
          dev.flashpageSize * ((offset + len) / dev.flashpageSize)) := by
    rw [Nat.mul_comm dev.flashpageSize]
    refine ⟨Nat.mul_le_mul_right _ ?_, ?_⟩
    · unfold pagesFilled at hk
      split at hk
      · omega
      · omega
    · intro hLt
      exact Nat.mul_le_mul_right _ hLt
  have hSucc := Nat.add_one_mul k dev.flashpageSize
  have hMod := dev.size_pos
  unfold pagesFilled at hk
  split at hk
  · have hStep := hMul.2 (by omega)
    omega
  · have hStep := hMul.1
    omega

section

variable (hHdr : riotbootSlotGetHdr dev targetSlot = some hdr)

include hHdr

/- The flash after an update that ends its last page. -/
theorem imageWritten_of_endPage
    (hOffset : offset < dev.flashpageSize)
    (hWritten :
      Written dev (hdr / dev.flashpageSize) (offset % dev.flashpageSize) (chunks.flatten ++ last) w)
    (hEnd : endPage dev w = some w')
    (hSingle : writeImage dev mem targetSlot offset [] (chunks.flatten ++ last) = some w') :
    ImageWritten dev mem targetSlot hdr offset (chunks.flatten ++ last) w'.2 := by
  have hAligned : hdr / dev.flashpageSize * dev.flashpageSize = hdr :=
    Nat.div_mul_cancel (dev.slots_aligned hdr (List.mem_of_getElem? hHdr))
  rw [Nat.mod_eq_of_lt hOffset] at hWritten
  rcases hWritten.endPage hEnd with ⟨hPages, hStored⟩
  refine ⟨?_, ?_, ⟨w', hSingle, fun p => Iff.rfl, rfl⟩⟩
  · intro i b hByte
    have hAt := hStored i b hByte
    rwa [hAligned, ← Nat.add_assoc] at hAt
  · intro page data hMem
    have hPage : page ∈ w'.2.written.map Prod.fst := List.mem_map_of_mem hMem
    rw [hPages] at hPage
    rcases List.mem_map.mp hPage with ⟨k, hk, rfl⟩
    have hCover := covering_of_pagesFilled hOffset (List.mem_range.mp hk)
    have hStart :
        (hdr / dev.flashpageSize + k) * dev.flashpageSize = hdr + k * dev.flashpageSize := by
      rw [Nat.add_mul, hAligned]
    have hNext : (hdr / dev.flashpageSize + k + 1) * dev.flashpageSize =
          hdr + (k + 1) * dev.flashpageSize := by
      rw [Nat.add_assoc, Nat.add_mul, hAligned]
    rw [hStart, hNext]
    omega

/- The pages that one call with the whole image writes. -/
theorem single_pages
    (hSome : image ≠ [])
    (hRun : writeImage dev mem targetSlot offset [] image = some w) :
    w.2.written.map Prod.fst = (List.range
        (pagesFilled dev (offset % dev.flashpageSize) image.length)).map
        (fun k => hdr / dev.flashpageSize + k) := by
  rcases writeImage_eq_some hHdr hRun with ⟨w₁, -, hWritten, hClose⟩
  rw [List.flatten_nil, List.nil_append] at hWritten
  have hEnd : endPage dev w₁ = some w := by
    simp only [closeCall, hSome] at hClose
    exact hClose
  exact (hWritten.endPage hEnd).1

/- An update without bytes writes nothing. -/
theorem imageWritten_of_nil
    (hNil : chunks.flatten ++ last = [])
    (hRun : writeImage dev mem targetSlot offset chunks last = some w') :
    ImageWritten dev mem targetSlot hdr offset (chunks.flatten ++ last) w'.2 := by
  rcases writeImage_eq_some hHdr hRun with ⟨w, -, hWritten, hClose⟩
  have hSingle := writeImage_single hHdr (Or.inl hNil) hRun
  have hPages := hWritten.pages_eq
  rw [(List.append_eq_nil_iff.mp hNil).2] at hClose
  simp only [closeCall, or_true, if_true, Option.some.injEq] at hClose
  subst hClose
  rw [hNil] at hPages hSingle ⊢
  have hNone : w.2.written = [] := by
    rw [List.length_nil, Nat.add_zero, Nat.div_eq_of_lt (Nat.mod_lt _ dev.size_pos)] at hPages
    exact List.map_eq_nil_iff.mp hPages
  refine ⟨?_, ?_, ⟨w, hSingle, fun p => Iff.rfl, rfl⟩⟩
  · intro i b hByte
    cases hByte
  · intro page data hIn
    rw [hNone] at hIn
    cases hIn

end

/- The last call ends the last page. -/
theorem endPage_of_closeCall
    (hWritten :
      Written dev (hdr / dev.flashpageSize) (offset % dev.flashpageSize) (chunks.flatten ++ last) w)
    (hLast : last ≠ [] ∨ (offset + (chunks.flatten ++ last).length) % dev.flashpageSize = 0)
    (hClose : closeCall dev false last w = some w') :
    endPage dev w = some w' := by
  rcases hLast with hSome | hFull
  · simp only [closeCall, hSome] at hClose
    exact hClose
  · have hOffset := hWritten.offset_eq
    rw [Nat.mod_add_mod, hFull] at hOffset
    rw [closeCall_of_full hOffset] at hClose
    rw [endPage, if_pos hOffset, hClose]

section

variable (hImage : ImageWritten dev mem targetSlot hdr offset image w.2)
variable (hHdr : riotbootSlotGetHdr dev targetSlot = some hdr) (hSome : image ≠ [])

include hImage hHdr hSome

/- Every page of the single call is a page of the update. -/
theorem ImageWritten.page_mem
    {k : Nat} (hk : k < pagesFilled dev (offset % dev.flashpageSize) image.length) :
    ∃ data, (hdr / dev.flashpageSize + k, data) ∈ w.2.written := by
  rcases hImage.single with ⟨w₁, hSingle, hSame, -⟩
  have hMem : hdr / dev.flashpageSize + k ∈ w₁.2.written.map Prod.fst := by
    rw [single_pages hHdr hSome hSingle]
    exact List.mem_map.mpr ⟨k, List.mem_range.mpr hk, rfl⟩
  rcases List.mem_map.mp hMem with ⟨⟨page, data⟩, hIn, hEq⟩
  refine ⟨data, (hSame _).mpr ?_⟩
  rw [← hEq]
  exact hIn

/- The first page of the single call is the slot's. -/
theorem ImageWritten.offset_lt :
    offset < dev.flashpageSize := by
  have hPos := List.length_pos_iff.mpr hSome
  rcases hImage.page_mem hHdr hSome (pagesFilled_pos hPos) with ⟨data, hIn⟩
  have hCover := (hImage.covering _ data hIn).2
  have hAligned : hdr / dev.flashpageSize * dev.flashpageSize = hdr :=
    Nat.div_mul_cancel (dev.slots_aligned hdr (List.mem_of_getElem? hHdr))
  rw [Nat.add_zero, Nat.add_mul, hAligned] at hCover
  omega

end

/- The last page of the single call is not lost. -/
theorem ImageWritten.last_full
    (hHdr : riotbootSlotGetHdr dev targetSlot = some hdr)
    (hWritten : Written dev (hdr / dev.flashpageSize) (offset % dev.flashpageSize) image w)
    (hImage : ImageWritten dev mem targetSlot hdr offset image w.2)
    (hSome : image ≠ []) :
    (offset + image.length) % dev.flashpageSize = 0 := by
  by_contra hRest
  rw [← Nat.mod_add_mod] at hRest
  have hLast : (offset % dev.flashpageSize + image.length) / dev.flashpageSize <
        pagesFilled dev (offset % dev.flashpageSize)
          image.length := by
    unfold pagesFilled
    rw [if_neg hRest]
    exact Nat.lt_succ_self _
  rcases hImage.page_mem hHdr hSome hLast with ⟨data, hIn⟩
  have hMem : hdr / dev.flashpageSize +
          (offset % dev.flashpageSize + image.length) / dev.flashpageSize ∈
        w.2.written.map Prod.fst :=
    List.mem_map_of_mem hIn
  rw [hWritten.pages_eq] at hMem
  rcases List.mem_map.mp hMem with ⟨k, hk, hEq⟩
  have hLt := List.mem_range.mp hk
  omega

/-
  The calls write the image as one call would, if and only if
  the update starts inside the first page and the last call
  has bytes whenever the last page is not full.
-/
theorem imageWritten_iff
    (hHdr : riotbootSlotGetHdr dev targetSlot = some hdr)
    (hRun : writeImage dev mem targetSlot offset chunks last = some w') :
    ImageWritten dev mem targetSlot hdr offset
        (chunks.flatten ++ last) w'.2 ↔ chunks.flatten ++ last = [] ∨
      offset < dev.flashpageSize ∧
        (last ≠ [] ∨ (offset + (chunks.flatten ++ last).length) % dev.flashpageSize = 0) := by
  rcases writeImage_eq_some hHdr hRun with ⟨w, hOffset, hWritten, hClose⟩
  constructor
  · intro hImage
    rw [or_iff_not_imp_left]
    intro hSome
    refine ⟨hImage.offset_lt hHdr hSome, ?_⟩
    rw [or_iff_not_imp_left, not_not]
    intro hNil
    subst hNil
    simp only [closeCall, or_true, if_true, Option.some.injEq] at hClose
    subst hClose
    exact hImage.last_full hHdr hWritten hSome
  · intro hCond
    by_cases hNil : chunks.flatten ++ last = []
    · exact imageWritten_of_nil hHdr hNil hRun
    · rcases hCond.resolve_left hNil with ⟨hLt, hLast⟩
      exact
        imageWritten_of_endPage hHdr hLt hWritten
          (endPage_of_closeCall hWritten hLast hClose)
          (writeImage_single hHdr (Or.inr hLast) hRun)

end

/- A flash with pages of four bytes, and one slot. -/
def smallFlash : FlashDevice where
  flashpageSize := 4
  flashpageNumof := 4
  riotbootSlots := [4]
  flashpageWrite := fun mem page data =>
    mem.write (page * 4) (data.take 4)
  size_pos := by decide
  slots_aligned := by decide
  write_frame := by
    intro mem page data x hOut
    apply ByteMem.write_of_not_mem
    rw [List.length_take]
    omega

theorem imageWritten_smallFlash :
    ∃ w, writeImage smallFlash ⟨fun _ => 0⟩ 0 1 [[1, 2], [], [3, 4]] [5] = some w ∧
      ImageWritten smallFlash ⟨fun _ => 0⟩ 0 4 1 ([[1, 2], [], [3, 4]].flatten ++ [5]) w.2 :=
  ⟨_, rfl, (imageWritten_iff rfl rfl).mpr (Or.inr ⟨by decide, Or.inl (by decide)⟩)⟩

/-
  An empty last call leaves the last page in the buffer, and
  an update that starts at the end of the first page goes to
  the first page.
-/
theorem not_imageWritten_smallFlash :
    (∃ w, writeImage smallFlash ⟨fun _ => 0⟩ 0 1 [[7]] [] = some w ∧
      ¬ ImageWritten smallFlash ⟨fun _ => 0⟩ 0 4 1 ([[7]].flatten ++ []) w.2) ∧ ∃ w,
      writeImage smallFlash ⟨fun _ => 0⟩ 0 4 [] [7] = some w ∧
      ¬ ImageWritten smallFlash ⟨fun _ => 0⟩ 0 4 4 ([].flatten ++ [7]) w.2 := by
  refine ⟨⟨_, rfl, ?_⟩, ⟨_, rfl, ?_⟩⟩
  · intro hImage
    have hByte := hImage.bytes 0 7 rfl
    exact absurd hByte (by decide)
  · intro hImage
    have hByte := hImage.bytes 0 7 rfl
    exact absurd hByte (by decide)

end Riot
