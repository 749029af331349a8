import Riot.Net.GnrcTcp

/-
  The acceptability test of received segments, against the
  four cases of RFC 793 on distances from the next expected
  sequence number.
-/

----
-- Distances
----

namespace Riot

/- How far `x` is ahead of `rcvNxt`, modulo 2^32. -/
def seqDistance
    (rcvNxt x : Nat) : Nat :=
  (x + 4294967296 - rcvNxt) % 4294967296

/-
  The four cases: an empty or a filled segment meets a closed
  or an open window.
-/
def SegmentAcceptable
    (rcvNxt seqNum : Nat) : Nat → Nat → Prop
  | 0, 0 => seqNum = rcvNxt
  | 0, rcvWnd + 1 => seqDistance rcvNxt seqNum < rcvWnd + 1
  | _ + 1, 0 => False
  | segLen + 1, rcvWnd + 1 =>
    seqDistance rcvNxt seqNum < rcvWnd + 1 ∨ seqDistance rcvNxt (seqNum + segLen) < rcvWnd + 1

/- Distances of machine numbers. -/
theorem toNat_sub_eq_distance
    (x rcvNxt : UInt32) :
    (x - rcvNxt).toNat = seqDistance rcvNxt.toNat x.toNat := by
  have hx := x.toNat_lt
  have hNxt := rcvNxt.toNat_lt
  rw [UInt32.toNat_sub, seqDistance]
  omega

/- Distances forget multiples of 2^32. -/
theorem seqDistance_mod
    {rcvNxt x : Nat} (hNxt : rcvNxt < 4294967296) :
    seqDistance rcvNxt (x % 4294967296) = seqDistance rcvNxt x := by
  unfold seqDistance
  omega

----
-- Acceptability
----

variable {lEdge seqNum wnd : UInt32}

/-
  The comparisons by sign see the window as an interval of
  distances, wherever its edges wrap around.
-/
theorem insideWnd_iff
    (hPos : 0 < wnd.toNat) (hSmall : wnd.toNat < 65536) :
    insideWnd lEdge seqNum (lEdge + wnd) = true ↔
      seqDistance lEdge.toNat seqNum.toNat < wnd.toNat := by
  have hLeft : (lEdge - seqNum).toNat = (4294967296 - (seqNum - lEdge).toNat) % 4294967296 := by
    have hl := lEdge.toNat_lt
    have hs := seqNum.toNat_lt
    rw [UInt32.toNat_sub, UInt32.toNat_sub]
    omega
  have hRight : (seqNum - (lEdge + wnd)).toNat =
        ((seqNum - lEdge).toNat + 4294967296 - wnd.toNat) % 4294967296 := by
    have hl := lEdge.toNat_lt
    have hs := seqNum.toNat_lt
    rw [UInt32.toNat_sub, UInt32.toNat_sub, UInt32.toNat_add]
    omega
  have hEq : lEdge = seqNum ↔ (lEdge - seqNum).toNat = 0 := by
    rw [← UInt32.toNat_zero, UInt32.toNat_inj, UInt32.sub_eq_iff_eq_add, UInt32.zero_add]
  rw [insideWnd, Bool.and_eq_true, leq32Bit_iff, lss32Bit_iff,
    hEq, hLeft, hRight, ← toNat_sub_eq_distance]
  have hLt := (seqNum - lEdge).toNat_lt
  omega

end Riot
