import Mathlib.Data.List.GetD
import Mathlib.Algebra.Ring.Nat
import Mathlib.Tactic.Common

/-
  The options of a hop-by-hop or destination options header.

  The loop walks over the header that is marked in the packet.
  It reads the length of an option before it looks how much of
  the header is left, so that an option type which is the last
  byte has its length taken from behind the header.
-/

----
-- The Option Loop
----

namespace Riot

/-
  What is outside of the header: the bytes behind it, whether
  the packet buffer has memory to mark it, whether ICMPv6
  errors are compiled in, and the destination of the packet.
-/
structure ExtOptEnv where
  behind : Nat → UInt8
  mark : Bool
  icmpv6Error : Bool
  multicastDst : Bool

/-
  The bytes of the header that were read, whether the packet
  is passed on, and the option that an error reports.
-/
structure ExtOptRun where
  reads : List Nat
  passed : Bool
  paramProb : Option Nat
deriving DecidableEq

/- _unrec_action -/
def unrecAction
    (type : UInt8) : UInt8 :=
  type &&& 0xc0

/- The parameter problem that is sent for an option type. -/
def ExtOptEnv.paramProb
    (env : ExtOptEnv) (type : UInt8) (pos : Nat) : Option Nat :=
  let sendError :=
    if unrecAction type = 0x80 then env.icmpv6Error
    else if unrecAction type = 0xc0 then
      env.icmpv6Error && !env.multicastDst
    else false
  if sendError then some pos else none

def ExtOptEnv.opts
    (env : ExtOptEnv) (hdr : List UInt8) (i : Nat) : UInt8 :=
  hdr.getD i (env.behind i)

/- The loop of gnrc_ipv6_ext_opt_process. -/
def extOptLoop
    (env : ExtOptEnv) (hdr : List UInt8) :
    Nat → Nat → List Nat → Option ExtOptRun
| 0, _, _ => none
| fuel + 1, offset, reads =>
  if ¬offset < hdr.length then
    some ⟨reads, true, none⟩
  else
    let optType := env.opts hdr offset
    let reads := reads ++ [offset]
    let offset := offset + 1
    if optType = 0 then
      extOptLoop env hdr fuel offset reads
    else
      let optLen := (env.opts hdr offset).toNat
      let reads := reads ++ [offset]
      let offset := offset + 1
      if optLen > (hdr.length + 2 ^ 32 - offset) % 2 ^ 32 then
        some ⟨reads, false, none⟩
      else if optType = 1 ∨ unrecAction optType = 0 then
        extOptLoop env hdr fuel (offset + optLen) reads
      else
        some ⟨reads, false, env.paramProb optType (offset - 2)⟩

/- The length of the header, from its second byte. -/
def extOptHdrLen
    (pkt : List UInt8) : Nat :=
  (pkt.getD 1 0).toNat * 8 + 8

def gnrcIpv6ExtOptProcess
    (env : ExtOptEnv) (pkt : List UInt8) (fuel : Nat) : Option ExtOptRun :=
  if pkt.length < 2 then
    some ⟨[], false, none⟩
  else if extOptHdrLen pkt > pkt.length ∨ env.mark = false then
    some ⟨[], false, none⟩
  else
    extOptLoop env (pkt.take (extOptHdrLen pkt)) fuel 2 []

----
-- Options
----

/-
  A string of options, whose types are of a certain kind, with
  `rest` behind them.
-/
inductive ExtOptions
    (kind : UInt8 → Prop)
    (rest : List UInt8) : List UInt8 → Prop
| done : ExtOptions kind rest rest
| pad1
    (opts : List UInt8)
    (hOpts : ExtOptions kind rest opts) :
    ExtOptions kind rest (0 :: opts)
| option
    (type len : UInt8) (value opts : List UInt8)
    (hPad : type ≠ 0)
    (hKind : kind type)
    (hLen : value.length = len.toNat)
    (hOpts : ExtOptions kind rest opts) :
    ExtOptions kind rest (type :: len :: (value ++ opts))

/- The options are tiled by Pad1 and by complete options. -/
def OptionsTiled
    (opts : List UInt8) : Prop :=
  ExtOptions (fun _ => True) [] opts

/-
  Behind options that are skipped, the last byte is a type
  other than Pad1, which has no room for its length.
-/
def EndsInType
    (opts : List UInt8) : Prop :=
  ∃ type ≠ 0, ExtOptions (fun type => type = 1 ∨ unrecAction type = 0) [type] opts

variable {kind : UInt8 → Prop} {rest opts : List UInt8} {type len : UInt8}

theorem ExtOptions.pad1_iff
    (hRest : ∀ l, rest ≠ 0 :: l) :
    ExtOptions kind rest (0 :: opts) ↔ ExtOptions kind rest opts := by
  constructor
  · intro hOpts
    cases hOpts with
    | done => exact absurd rfl (hRest opts)
    | pad1 _ hOpts => exact hOpts
    | option _ _ _ _ hPad => exact absurd rfl hPad
  · exact ExtOptions.pad1 opts

theorem ExtOptions.option_iff
    (hPad : type ≠ 0) (hRest : rest.length < 2) :
    ExtOptions kind rest (type :: len :: opts) ↔
      kind type ∧ len.toNat ≤ opts.length ∧ ExtOptions kind rest (opts.drop len.toNat) := by
  constructor
  · intro hOpts
    generalize hAll : type :: len :: opts = all at hOpts
    cases hOpts with
    | done =>
      rw [← hAll] at hRest
      exact absurd hRest (by simp)
    | pad1 _ _ =>
      cases hAll
      exact absurd rfl hPad
    | option _ _ value more _ hKind hLen hMore =>
      cases hAll
      rw [← hLen]
      refine ⟨hKind, by simp, ?_⟩
      rwa [List.drop_left]
  · intro hAll
    have hValue := ExtOptions.option type len (opts.take len.toNat)
        (opts.drop len.toNat) hPad hAll.1
        (by rw [List.length_take, Nat.min_eq_left hAll.2.1])
        hAll.2.2
    rwa [List.take_append_drop] at hValue

theorem endsInType_nil :
    ¬EndsInType [] := by
  rintro ⟨type, _, hOpts⟩
  cases hOpts

theorem endsInType_pad1 :
    EndsInType (0 :: opts) ↔ EndsInType opts := by
  refine exists_congr (fun type => and_congr_right (fun hPad => ?_))
  apply ExtOptions.pad1_iff
  intro l hEq
  exact hPad (List.cons.inj hEq).1

theorem endsInType_option
    (hPad : type ≠ 0) :
    EndsInType (type :: len :: opts) ↔ (type = 1 ∨ unrecAction type = 0) ∧
        len.toNat ≤ opts.length ∧ EndsInType (opts.drop len.toNat) := by
  constructor
  · rintro ⟨last, hLast, hOpts⟩
    rw [ExtOptions.option_iff hPad (show [last].length < 2 from Nat.lt_succ_self 1)] at hOpts
    exact ⟨hOpts.1, hOpts.2.1, last, hLast, hOpts.2.2⟩
  · rintro ⟨hKind, hFits, last, hLast, hOpts⟩
    refine ⟨last, hLast, ?_⟩
    rw [ExtOptions.option_iff hPad (show [last].length < 2 from Nat.lt_succ_self 1)]
    exact ⟨hKind, hFits, hOpts⟩

----
-- Runs of the Loop
----

variable {env : ExtOptEnv} {hdr opts : List UInt8} {type : UInt8} {offset fuel : Nat}

theorem opts_of_drop
    (hDrop : hdr.drop offset = type :: opts) :
    offset < hdr.length ∧ env.opts hdr offset = type ∧ hdr.drop (offset + 1) = opts := by
  have hLt : offset < hdr.length := by
    by_contra hNot
    rw [List.drop_eq_nil_of_le (Nat.not_lt.mp hNot)] at hDrop
    cases hDrop
  rw [List.drop_eq_getElem_cons hLt] at hDrop
  rcases List.cons.inj hDrop with ⟨hType, hOpts⟩
  rw [ExtOptEnv.opts, List.getD_eq_getElem _ _ hLt]
  exact ⟨hLt, hType, hOpts⟩

/- One round of the loop, at an option other than Pad1. -/
theorem extOptLoop_option
    (reads : List Nat) (hLt : offset < hdr.length)
    (hPad : env.opts hdr offset ≠ 0) :
    extOptLoop env hdr (fuel + 1) offset reads = if (env.opts hdr (offset + 1)).toNat >
          (hdr.length + 2 ^ 32 - (offset + 2)) % 2 ^ 32 then
        some ⟨reads ++ [offset] ++ [offset + 1], false, none⟩
      else if env.opts hdr offset = 1 ∨ unrecAction (env.opts hdr offset) = 0 then
        extOptLoop env hdr fuel (offset + 2 + (env.opts hdr (offset + 1)).toNat)
          (reads ++ [offset] ++ [offset + 1])
      else some ⟨reads ++ [offset] ++ [offset + 1], false,
          env.paramProb (env.opts hdr offset) offset⟩ := by
  rw [extOptLoop, if_neg (not_not.mpr hLt)]
  dsimp only
  rw [if_neg hPad]
  rfl

/- The length of a type in the last byte is behind the header. -/
theorem extOptLoop_type
    {reads : List Nat} (hEnd : hdr.length = offset + 1)
    (hPad : env.opts hdr offset ≠ 0) :
    ∃ run, (∀ fuel > 1, extOptLoop env hdr fuel offset reads = some run) ∧
      hdr.length ∈ run.reads := by
  have hByte := (env.opts hdr (offset + 1)).toNat_lt
  have hPast : hdr.length ∈ reads ++ [offset] ++ [offset + 1] :=
    List.mem_append_right _ (hEnd ▸ List.mem_cons_self)
  have hRound (fuel : Nat) := @extOptLoop_option env _ _ fuel reads (hEnd ▸ Nat.lt_succ_self _) hPad
  by_cases hKind : env.opts hdr offset = 1 ∨ unrecAction (env.opts hdr offset) = 0
  · refine ⟨⟨_, true, none⟩, fun fuel hFuel => ?_, hPast⟩
    obtain ⟨k, rfl⟩ : ∃ k, fuel = k + 1 + 1 := ⟨fuel - 2, by omega⟩
    rw [hRound, if_neg (by omega), if_pos hKind]
    exact if_pos (by omega)
  · refine ⟨⟨_, false, env.paramProb (env.opts hdr offset) offset⟩, fun fuel hFuel => ?_, hPast⟩
    rcases Nat.exists_eq_add_of_lt hFuel with ⟨k, rfl⟩
    rw [hRound, if_neg (by omega), if_neg hKind]

/-
  From any option on, the loop ends. It stays in the header
  unless the options end in a type, and what it passes on is
  tiled by options.
-/
theorem extOptLoop_spec
    {reads : List Nat} (hSize : hdr.length < 2 ^ 32)
    (hDrop : hdr.drop offset = opts) (hReads : ∀ i ∈ reads, i < hdr.length) :
    ∃ run, (∀ fuel > opts.length, extOptLoop env hdr fuel offset reads = some run) ∧
      ((∀ i ∈ run.reads, i < hdr.length) ↔ ¬EndsInType opts) ∧
      (run.passed = true → ¬EndsInType opts → OptionsTiled opts) := by
  induction hLen : opts.length using Nat.strong_induction_on generalizing offset opts reads with
  | _ n ih =>
    cases opts with
    | nil =>
      have hEnd : ¬offset < hdr.length := Nat.not_lt.mpr (List.drop_eq_nil_iff.mp hDrop)
      refine ⟨⟨reads, true, none⟩, ?_, ?_, ?_⟩
      · intro fuel hFuel
        rcases Nat.exists_eq_add_of_lt hFuel with ⟨k, rfl⟩
        exact if_pos hEnd
      · exact iff_of_true hReads endsInType_nil
      · exact fun _ _ => ExtOptions.done
    | cons type tail =>
      rcases @opts_of_drop env _ _ _ _ hDrop with ⟨hLt, hType, hTail⟩
      have hReads' : ∀ i ∈ reads ++ [offset], i < hdr.length := by
        intro i hi
        rcases List.mem_append.mp hi with hOld | hNew
        · exact hReads i hOld
        · exact List.mem_singleton.mp hNew ▸ hLt
      by_cases hPad : type = 0
      · subst hPad
        rcases ih tail.length (hLen ▸ Nat.lt_succ_self _) hTail
          hReads' rfl with ⟨run, hRun, hBounds, hTiled⟩
        refine ⟨run, ?_, ?_, ?_⟩
        · intro fuel hFuel
          rcases Nat.exists_eq_add_of_lt hFuel with ⟨k, rfl⟩
          rw [extOptLoop, if_neg (not_not.mpr hLt), hType]
          exact hRun _ (by rw [← hLen, List.length_cons]; omega)
        · rw [endsInType_pad1]
          exact hBounds
        · rw [endsInType_pad1]
          intro hPassed hSound
          exact ExtOptions.pad1 _ (hTiled hPassed hSound)
      · have hPadAt : env.opts hdr offset ≠ 0 := hType ▸ hPad
        cases tail with
        | nil =>
          have hEnd : hdr.length = offset + 1 := Nat.le_antisymm (List.drop_eq_nil_iff.mp hTail) hLt
          have hLast : EndsInType [type] := ⟨type, hPad, ExtOptions.done⟩
          rcases @extOptLoop_type env _ _ reads hEnd hPadAt with ⟨run, hRun, hPast⟩
          refine ⟨run, fun fuel hFuel => hRun fuel ?_, ?_, fun _ hNot => absurd hLast hNot⟩
          · rwa [← hLen] at hFuel
          · refine iff_of_false (fun hAll => ?_) (not_not.mpr hLast)
            exact Nat.lt_irrefl _ (hAll _ hPast)
        | cons len value =>
          rcases @opts_of_drop env _ _ _ _ hTail with ⟨hLt', hOptLen, hValue⟩
          have hRoom : (hdr.length + 2 ^ 32 - (offset + 2)) % 2 ^ 32 = value.length := by
            rw [← hValue, List.length_drop]
            omega
          have hInside : ∀ i ∈ reads ++ [offset] ++ [offset + 1], i < hdr.length := by
            intro i hi
            rcases List.mem_append.mp hi with hOld | hNew
            · exact hReads' i hOld
            · exact List.mem_singleton.mp hNew ▸ hLt'
          have hRound (fuel : Nat) := @extOptLoop_option env _ _ fuel reads hLt hPadAt
          simp only [hType, hOptLen, hRoom] at hRound
          rw [endsInType_option hPad]
          by_cases hFits : len.toNat ≤ value.length
          · by_cases hKind : type = 1 ∨ unrecAction type = 0
            · have hMore : hdr.drop (offset + 2 + len.toNat) = value.drop len.toNat := by
                rw [← hValue, List.drop_drop]
              have hLess : (value.drop len.toNat).length < n := by
                rw [← hLen, List.length_drop, List.length_cons, List.length_cons]
                omega
              rcases ih _ hLess hMore hInside rfl with ⟨run, hRun, hBounds, hTiled⟩
              refine ⟨run, ?_, ?_, ?_⟩
              · intro fuel hFuel
                rcases Nat.exists_eq_add_of_lt hFuel with ⟨k, rfl⟩
                rw [hRound, if_neg (Nat.not_lt.mpr hFits), if_pos hKind]
                exact hRun _ (by omega)
              · simp only [hKind, hFits, true_and]
                exact hBounds
              · simp only [hKind, hFits, true_and]
                intro hPassed hSound
                have hNone : ([] : List UInt8).length < 2 := Nat.succ_pos 1
                exact (ExtOptions.option_iff hPad hNone).mpr ⟨trivial, hFits, hTiled hPassed hSound⟩
            · refine ⟨⟨_, false, env.paramProb type offset⟩, ?_,
                iff_of_true hInside (fun h => hKind h.1),
                fun h => absurd h Bool.false_ne_true⟩
              intro fuel hFuel
              rcases Nat.exists_eq_add_of_lt hFuel with ⟨k, rfl⟩
              rw [hRound, if_neg (Nat.not_lt.mpr hFits), if_neg hKind]
          · refine ⟨⟨_, false, none⟩, ?_, iff_of_true hInside (fun h => hFits h.2.1),
              fun h => absurd h Bool.false_ne_true⟩
            intro fuel hFuel
            rcases Nat.exists_eq_add_of_lt hFuel with ⟨k, rfl⟩
            rw [hRound, if_pos (Nat.not_le.mp hFits)]

----
-- The Packet
----

/-
  The loop ends, reads only the header, and a packet that is
  passed on has a header that is tiled by its options.
-/
def OptionsParsed
    (env : ExtOptEnv) (pkt : List UInt8) : Prop :=
  ∃ run, (∀ fuel > pkt.length, gnrcIpv6ExtOptProcess env pkt fuel = some run) ∧
    (∀ i ∈ run.reads, i < extOptHdrLen pkt) ∧
    (run.passed = true → OptionsTiled ((pkt.take (extOptHdrLen pkt)).drop 2))

variable {env : ExtOptEnv} {pkt : List UInt8}

/-
  All of this holds of every packet that is dropped before the
  loop, and otherwise if the options do not end in a type.
-/
theorem optionsParsed_iff :
    OptionsParsed env pkt ↔ pkt.length < 2 ∨ extOptHdrLen pkt > pkt.length ∨ env.mark = false ∨
        ¬EndsInType ((pkt.take (extOptHdrLen pkt)).drop 2) := by
  unfold OptionsParsed gnrcIpv6ExtOptProcess
  have hDropped :
      ∃ run : ExtOptRun, (∀ fuel > pkt.length, some ⟨[], false, none⟩ = some run) ∧
        (∀ i ∈ run.reads, i < extOptHdrLen pkt) ∧
        (run.passed = true → OptionsTiled ((pkt.take (extOptHdrLen pkt)).drop 2)) :=
    ⟨_, fun _ _ => rfl, by simp, by simp⟩
  by_cases hShort : pkt.length < 2
  · simp only [if_pos hShort]
    exact iff_of_true hDropped (Or.inl hShort)
  by_cases hMark : extOptHdrLen pkt > pkt.length ∨ env.mark = false
  · simp only [if_neg hShort, if_pos hMark]
    exact iff_of_true hDropped (Or.inr (hMark.elim Or.inl (Or.inr ∘ Or.inl)))
  simp only [if_neg hShort, if_neg hMark]
  rw [not_or] at hMark
  have hLen : (pkt.take (extOptHdrLen pkt)).length = extOptHdrLen pkt := by
    rw [List.length_take, Nat.min_eq_left (Nat.not_lt.mp hMark.1)]
  have hByte := (pkt.getD 1 0).toNat_lt
  have hSize : (pkt.take (extOptHdrLen pkt)).length < 2 ^ 32 := by
    rw [hLen, extOptHdrLen]
    omega
  rcases @extOptLoop_spec env _ _ 2 [] hSize rfl (by simp) with ⟨run, hRun, hBounds, hTiled⟩
  rw [hLen] at hBounds
  rw [or_iff_right hShort, or_iff_right hMark.1, or_iff_right hMark.2]
  constructor
  · rintro ⟨run', hRun', hInside, _⟩
    have hSame := hRun (pkt.length + 1) (by
      rw [List.length_drop, hLen]
      omega)
    rw [hRun' _ (Nat.lt_succ_self _)] at hSame
    cases hSame
    exact hBounds.mp hInside
  · intro hSound
    refine ⟨run, ?_, hBounds.mpr hSound, fun hPassed => hTiled hPassed hSound⟩
    intro fuel hFuel
    apply hRun
    rw [List.length_drop, hLen]
    omega

/- A PadN option, and the type of a router alert. -/
theorem not_optionsParsed :
    ¬OptionsParsed ⟨fun _ => 0, true, true, false⟩ [59, 0, 1, 3, 0, 0, 0, 5] := by
  rintro ⟨run, hRun, hInside, _⟩
  have hReads :
      some run = some ⟨[2, 3, 7, 8], true, none⟩ :=
    (hRun 9 (by decide)).symm.trans (by decide +kernel)
  cases hReads
  exact absurd (hInside 8 (by decide)) (by decide)

end Riot
