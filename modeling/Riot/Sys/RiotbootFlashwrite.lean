import Riot.Lib.ByteMemory

/-
  Writing firmware images, `sys/riotboot/flashwrite.c`, with
  the page functions of `drivers/periph_common/flashpage.c`.

  Flash addresses count from `CPU_FLASH_BASE`.  A result of
  `none` is a failed assertion.
-/

----
-- Flash Pages
----

namespace Riot

/-
  The flash of a board: its page size, its number of pages,
  where the slots start, and the driver's `flashpage_write`.
  The driver writes no other page, and the slots of the build
  start on a page boundary.
-/
structure FlashDevice where
  flashpageSize : Nat
  flashpageNumof : Nat
  riotbootSlots : List Nat
  flashpageWrite : ByteMem → Nat → List UInt8 → ByteMem
  size_pos : 0 < flashpageSize
  slots_aligned : ∀ hdr ∈ riotbootSlots, flashpageSize ∣ hdr
  write_frame :
    ∀ mem page data x, x < page * flashpageSize ∨ (page + 1) * flashpageSize ≤ x →
      (flashpageWrite mem page data).byte x = mem.byte x

/-
  The contents of the flash, and the pages that have been
  written so far with their data, the first one first.
-/
structure Flash where
  mem : ByteMem
  written : List (Nat × List UInt8)

/- The function `riotboot_slot_get_hdr`. -/
def riotbootSlotGetHdr
    (dev : FlashDevice) (slot : Nat) : Option Nat :=
  dev.riotbootSlots[slot]?

/- The function `flashpage_page`. -/
def flashpagePage
    (dev : FlashDevice) (addr : Nat) : Nat :=
  addr / dev.flashpageSize

/- The function `flashpage_verify`. -/
def flashpageVerify
    (dev : FlashDevice) (mem : ByteMem) (page : Nat) (data : List UInt8) : Bool :=
  mem.read (page * dev.flashpageSize) dev.flashpageSize = data

/-
  The function `flashpage_write_and_verify`; the result is
  whether it returns `FLASHPAGE_OK`.
-/
def flashpageWriteAndVerify
    (dev : FlashDevice) (flash : Flash) (page : Nat)
    (data : List UInt8) : Option (Bool × Flash) :=
  if page < dev.flashpageNumof then
    let mem := dev.flashpageWrite flash.mem page data
    some (flashpageVerify dev mem page data, { mem, written := flash.written ++ [(page, data)] })
  else
    none

----
-- Firmware Writing
----

/- The type `riotboot_flashwrite_t`. -/
structure Flashwrite where
  targetSlot : Nat
  offset : Nat
  flashpage : Nat
  flashpageBuf : ByteMem

/- The function `riotboot_flashwrite_init_raw`. -/
def riotbootFlashwriteInitRaw
    (dev : FlashDevice) (targetSlot offset : Nat) : Option Flashwrite :=
  if offset ≤ dev.flashpageSize then do
    let hdr ← riotbootSlotGetHdr dev targetSlot
    some
      { targetSlot
        offset
        flashpage := flashpagePage dev hdr
        flashpageBuf := { byte := fun _ => 0 } }
  else
    none

/- Copying bytes into the page buffer. -/
def Flashwrite.copy
    (dev : FlashDevice) (state : Flashwrite) (bytes : List UInt8) : Flashwrite :=
  { state with
    offset := state.offset + bytes.length
    flashpageBuf := state.flashpageBuf.write (state.offset % dev.flashpageSize) bytes }

/-
  The loop of `riotboot_flashwrite_putbytes`.  An iteration
  takes at least one byte, so the number of bytes is enough
  fuel.
-/
def putbytesLoop
    (dev : FlashDevice) (more : Bool) :
    Nat → Flashwrite → Flash → List UInt8 → Option (Int × Flashwrite × Flash)
| _, state, flash, [] => some (0, state, flash)
| 0, _, _, _ :: _ => none
| fuel + 1, state, flash, bytes =>
  let flashpagePos := state.offset % dev.flashpageSize
  let flashpageAvail := dev.flashpageSize - flashpagePos
  let toCopy := min flashpageAvail bytes.length
  let state := state.copy dev (bytes.take toCopy)
  let bytes := bytes.drop toCopy
  if flashpageAvail - toCopy = 0 ∨ more = false then
    match flashpageWriteAndVerify dev flash state.flashpage
        (state.flashpageBuf.read 0 dev.flashpageSize) with
    | none => none
    | some (false, flash) => some (-1, state, flash)
    | some (true, flash) =>
      putbytesLoop dev more fuel { state with flashpage := state.flashpage + 1 } flash bytes
  else
    putbytesLoop dev more fuel state flash bytes

/- The function `riotboot_flashwrite_putbytes`. -/
def riotbootFlashwritePutbytes
    (dev : FlashDevice) (state : Flashwrite) (flash : Flash) (bytes : List UInt8)
    (more : Bool) : Option (Int × Flashwrite × Flash) :=
  putbytesLoop dev more bytes.length state flash bytes

/- The function `riotboot_flashwrite_finish_raw`. -/
def riotbootFlashwriteFinishRaw
    (dev : FlashDevice) (state : Flashwrite) (flash : Flash)
    (bytes : List UInt8) : Option (Int × Flashwrite × Flash) :=
  if bytes.length ≤ dev.flashpageSize then do
    let slotStart ← riotbootSlotGetHdr dev state.targetSlot
    -- A short header is completed from the flash, in the
    -- buffer of the state.
    let state :=
      if bytes.length < dev.flashpageSize then
        { state with
          flashpageBuf :=
            (state.flashpageBuf.write 0 bytes).write bytes.length
              (flash.mem.read (slotStart + bytes.length) (dev.flashpageSize - bytes.length)) }
      else
        state
    let firstpage :=
      if bytes.length < dev.flashpageSize then
        state.flashpageBuf.read 0 dev.flashpageSize
      else
        bytes
    let (ok, flash) ← flashpageWriteAndVerify dev flash (flashpagePage dev slotStart) firstpage
    some (if ok then 0 else -1, state, flash)
  else
    none

end Riot
