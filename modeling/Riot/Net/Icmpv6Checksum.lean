import Riot.Lib.ByteBuffer
import Riot.Net.TcpChecksum

/-
  The checksum of `gnrc_icmpv6.c`, from a sender, whose message
  is cut into snips, to the receiver, who has it in one.
-/

----
-- Operations
----

namespace Riot

open ByteBuffer OnesComplement

/- PROTNUM_ICMPV6 -/
def protnumIcmpv6 : UInt8 := 58

/- The loop over the payload, up to the header or the end. -/
def icmpv6CalcPayload :
    List (List UInt8) → UInt16 → UInt16 → Option (UInt16 × UInt16)
| [], csum, len => some (csum, len)
| payload :: next, csum, len => do
  let csum ← inetCsumSlice csum payload (UInt16.ofNat payload.length) len.toUInt32
  icmpv6CalcPayload next csum (len + UInt16.ofNat payload.length)

/- _calc_csum -/
def icmpv6CalcCsum
    (hdr pseudoHdr : List UInt8) (payload : List (List UInt8)) : Option UInt16 := do
  let (csum, len) ← icmpv6CalcPayload payload 0 (UInt16.ofNat hdr.length)
  let csum ← inetCsum csum hdr (UInt16.ofNat hdr.length)
  let csum ← ipv6HdrInetCsum csum pseudoHdr protnumIcmpv6 len
  return ~~~csum

/- The header with its checksum, unless -ENOENT is returned. -/
def gnrcIcmpv6CalcCsum
    (hdr pseudoHdr : List UInt8) (payload : List (List UInt8)) : Option (Option (List UInt8)) := do
  let csum ← icmpv6CalcCsum hdr pseudoHdr payload
  return if csum = 0 then none else some (hdr.take 2 ++ htons csum.toNat ++ hdr.drop 4)

----
-- Acceptance
----

variable {hdr hdr' ip body : List UInt8} {payload : List (List UInt8)}

theorem icmpv6CalcPayload_eq
    (csum : UInt16) {n : Nat} (hLen : n + payload.flatten.length < 65536) :
    icmpv6CalcPayload payload csum (UInt16.ofNat n) =
      some (UInt16.ofNat (fold (csum.toNat + weigh n payload.flatten)),
        UInt16.ofNat (n + payload.flatten.length)) := by
  induction payload generalizing csum n with
  | nil => simp [icmpv6CalcPayload, weigh, fold_of_lt csum.toNat_lt]
  | cons snip payload ih =>
    rw [List.flatten_cons, List.length_append] at hLen ⊢
    have hPlace : (UInt16.ofNat n).toUInt32.toNat = n := toNat_ofNat_word (by omega)
    rw [icmpv6CalcPayload, inetCsumSlice_whole _ _ (by omega), hPlace, ← UInt16.ofNat_add,
      Option.bind_eq_bind, Option.bind_some, ih _ (by omega), toNat_ofNat_word (fold_lt _),
      fold_add_fold, weigh_append, Nat.add_assoc, Nat.add_assoc]

/- What the pseudo header adds. One carry is enough for it. -/
theorem ipv6HdrInetCsum_fold
    {sum len : UInt16} (hIp : ip.length = 40) (hLen : len.toNat ≤ 65477) :
    ipv6HdrInetCsum sum ip protnumIcmpv6 len =
      some (UInt16.ofNat (fold (sum.toNat + (len.toNat + 58 + weigh 0 ((ip.drop 8).take 32))))) := by
  have hSum := sum.toNat_lt
  have hProt : protnumIcmpv6.toNat = 58 := rfl
  unfold ipv6HdrInetCsum
  dsimp only
  rw [inetCsum_eq _ _ (by rw [List.length_drop, hIp]; decide), ← Nat.add_assoc,
    ← fold_add_fold (sum.toNat + _), hProt]
  congr 4
  rw [UInt16.toNat_ofNat', apply_ite UInt16.toNat, UInt16.toNat_add, UInt16.toNat_one, fold]
  split <;> split <;> omega

/- The sum over the bytes of a message, in whatever snips. -/
theorem icmpv6CalcCsum_eq
    (hIp : ip.length = 40) (hLen : (hdr ++ payload.flatten).length ≤ 65477) :
    icmpv6CalcCsum hdr ip payload =
      some (~~~UInt16.ofNat (fold (weigh 0 (hdr ++ payload.flatten) +
        ((hdr ++ payload.flatten).length + 58 + weigh 0 ((ip.drop 8).take 32))))) := by
  rw [List.length_append] at hLen
  have hTotal : (UInt16.ofNat (hdr.length + payload.flatten.length)).toNat = _ :=
    toNat_ofNat_word (by omega)
  rw [icmpv6CalcCsum, icmpv6CalcPayload_eq 0 (by omega), Option.bind_eq_bind, Option.bind_some]
  dsimp only
  rw [inetCsum_whole _ _ (by omega), Option.bind_eq_bind, Option.bind_some,
    ipv6HdrInetCsum_fold hIp (by omega), toNat_ofNat_word (fold_lt _), fold_add_fold,
    toNat_ofNat_word (fold_lt _), Nat.add_assoc, fold_add_fold, hTotal, weigh_append,
    List.length_append, UInt16.toNat_zero, Nat.zero_add, Nat.zero_add, Option.bind_some]
  congr 4
  omega

/-
  A message that a sender has put a checksum into passes the
  test of `gnrc_icmpv6_demux`.
-/
theorem gnrcIcmpv6CalcCsum_passes
    {type code : UInt8} (hIp : ip.length = 40)
    (hLen : (type :: code :: 0 :: 0 :: body ++ payload.flatten).length ≤ 65477)
    (hCalc : gnrcIcmpv6CalcCsum (type :: code :: 0 :: 0 :: body) ip payload = some (some hdr')) :
    icmpv6CalcCsum (hdr' ++ payload.flatten) ip [] = some 0 := by
  rw [gnrcIcmpv6CalcCsum, icmpv6CalcCsum_eq hIp hLen] at hCalc
  generalize hSum : UInt16.ofNat (fold _) = sum at hCalc
  have hRet := Option.some.inj hCalc
  split at hRet <;> cases hRet
  have hLt := (~~~sum).toNat_lt
  have hNot : sum.toNat + (~~~sum).toNat = 65535 := by
    have hSumLt := sum.toNat_lt
    rw [UInt16.toNat_not]
    change sum.toNat + (65536 - 1 - sum.toNat) = 65535
    omega
  have hWeigh : weigh 0 (type :: code :: htons (~~~sum).toNat ++ body ++ payload.flatten) =
      weigh 0 (type :: code :: 0 :: 0 :: body ++ payload.flatten) + (~~~sum).toNat := by
    simp only [htons, List.cons_append, List.nil_append, weigh, UInt8.toNat_ofNat',
      Nat.shiftRight_eq_div_pow]
    simp
    omega
  have hLength : (type :: code :: htons (~~~sum).toNat ++ body ++ payload.flatten).length =
      (type :: code :: 0 :: 0 :: body ++ payload.flatten).length := rfl
  have hFold := congrArg UInt16.toNat hSum
  rw [toNat_ofNat_word (fold_lt _)] at hFold
  change icmpv6CalcCsum (type :: code :: htons (~~~sum).toNat ++ body ++ payload.flatten) ip [] = _
  rw [icmpv6CalcCsum_eq hIp (by simpa [htons] using hLen), List.flatten_nil, List.append_nil,
    hLength, hWeigh, Nat.add_right_comm, ← fold_add_fold, hFold, hNot]
  rfl

/- An echo request with payload in two snips. -/
theorem gnrcIcmpv6CalcCsum_passes_echo :
    ∃ hdr', gnrcIcmpv6CalcCsum [128, 0, 0, 0, 0, 1, 0, 2] (.replicate 40 0) [[5], [6, 7]] =
        some (some hdr') ∧ icmpv6CalcCsum (hdr' ++ [5, 6, 7]) (.replicate 40 0) [] = some 0 :=
  ⟨_, rfl, @gnrcIcmpv6CalcCsum_passes _ _ [0, 1, 0, 2] [[5], [6, 7]] 128 0 rfl (by decide) rfl⟩

end Riot
