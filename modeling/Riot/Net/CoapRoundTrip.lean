import Riot.Net.CoapBuilder

/-
  A message that is built with the functions of the module
  and parsed again.
-/

open ByteBuffer

----
-- Building a Message
----

namespace Riot

/- A call that adds an option. -/
inductive OptAdd where
-- coap_opt_add_opaque
| bytes (optnum : UInt16) (val : List UInt8)
-- coap_opt_add_uint
| uint (optnum : UInt16) (value : UInt32)
deriving DecidableEq, Repr

namespace OptAdd

def number : OptAdd → Nat
| bytes optnum _ => optnum.toNat
| uint optnum _ => optnum.toNat

/- The value as it is in the message. -/
def value : OptAdd → List UInt8
| bytes _ val => val
| uint _ value => encodeUint value

def run
    (cfg : NanocoapConfig) (pkt : CoapPkt) :
    OptAdd → Option (Except CoapError (Nat × CoapPkt))
| bytes optnum val => coapOptAddOpaque cfg pkt optnum val
| uint optnum value => coapOptAddUint cfg pkt optnum value

end OptAdd

/- The calls that add options, up to the first error. -/
def addOptions
    (cfg : NanocoapConfig) :
    CoapPkt → List OptAdd → Option (Except CoapError CoapPkt)
| pkt, [] => some (.ok pkt)
| pkt, a :: as => do
    let added ← a.run cfg pkt
    match added with
    | .error e => some (.error e)
    | .ok (_, pkt) => addOptions cfg pkt as

/- What a message is built from. -/
structure MessageBuild where
  type : Fin 4
  token : List UInt8
  code : UInt8
  id : UInt16
  adds : List OptAdd
  flags : UInt16
  payload : List UInt8
  token_le : token.length ≤ coapTokenLengthMax
  code_ne : code ≠ 0

/- Build the message in a buffer; the result is its bytes. -/
def coapBuild
    (cfg : NanocoapConfig) (b : MessageBuild) (buf : List UInt8) :
    Option (Except CoapError (List UInt8)) := do
  let (hdr, headerLen) ← coapBuildHdr buf b.type b.token b.code.toNat b.id.toNat
  let added ← addOptions cfg (coapPktInit hdr headerLen) b.adds
  match added with
  | .error e => some (.error e)
  | .ok pkt => do
      let finished ← coapOptFinish pkt b.flags
      match finished with
      | .error e => some (.error e)
      | .ok (len, pkt) => do
          let put ← coapPayloadPutBytes pkt b.payload
          match put with
          | .error e => some (.error e)
          | .ok (n, pkt) => some (.ok (pkt.hdr.take (len + n)))

/- The options of a message for a list of calls. -/
inductive OptionsOf :
    Nat → List OptAdd → List CoapOption → Prop
| nil {last : Nat} :
    OptionsOf last [] []
| cons
    {last : Nat} {a : OptAdd} {as : List OptAdd} {o : CoapOption} {os : List CoapOption} :
    last ≤ a.number → o.delta = a.number - last → o.value = a.value → OptionsOf a.number as os →
    OptionsOf last (a :: as) (o :: os)

variable {cfg : NanocoapConfig} {pkt pkt' : CoapPkt}
variable {bytes bytes' buf data : List UInt8} {as : List OptAdd}
variable {b : MessageBuild} {last n : Nat} {flags : UInt16}

theorem OptAdd.number_lt
    (a : OptAdd) :
    a.number < 2 ^ 16 := by
  cases a with
  | bytes optnum val => exact optnum.toNat_lt
  | uint optnum value => exact optnum.toNat_lt

theorem OptAdd.run_eq
    (a : OptAdd) :
    a.run cfg pkt = addOptPkt cfg pkt a.number a.value := by
  cases a <;> rfl

/- The options follow the bytes so far. -/
theorem addOptions_spec
    (hBuilt : Built cfg pkt bytes last)
    (hRun : addOptions cfg pkt as = some (.ok pkt')) :
    ∃ os last', OptionsOf last as os ∧ Built cfg pkt' (bytes ++ encodeOptions os) last' ∧
      pkt'.optionsLen = pkt.optionsLen + os.length := by
  induction as generalizing pkt bytes last with
  | nil =>
    have hEq : pkt = pkt' := by
      simpa [addOptions] using hRun
    subst hEq
    exact ⟨[], last, .nil, by simpa using hBuilt, rfl⟩
  | cons a as ih =>
    rcases Option.bind_eq_some_iff.mp hRun with ⟨added, hAdded, hRest⟩
    cases added with
    | error e => simp at hRest
    | ok r =>
      rcases r with ⟨n, pkt₁⟩
      rw [OptAdd.run_eq] at hAdded
      rcases addOptPkt_spec hBuilt a.number_lt hAdded with ⟨o, hLe, hDelta, hValue, hNext, hCount⟩
      rcases ih hNext hRest with ⟨os, last', hOptions, hFinal, hTotal⟩
      refine ⟨o :: os, last', .cons hLe hDelta hValue hOptions, ?_, ?_⟩
      · rw [encodeOptions_cons, ← List.append_assoc]
        exact hFinal
      · rw [hTotal, hCount, List.length_cons]
        omega

/- The marker, if a payload is to follow. -/
theorem coapOptFinish_spec
    (hBuilt : Built cfg pkt bytes last)
    (hRun : coapOptFinish pkt flags = some (.ok (n, pkt'))) :
    ∃ tail : List UInt8, n = (bytes ++ tail).length ∧ Built cfg pkt' (bytes ++ tail) last ∧
      (tail = [0xff] ∨ tail = [] ∧ pkt'.payloadLen = 0) := by
  unfold coapOptFinish at hRun
  split at hRun
  · split at hRun
    · simp at hRun
    · rename_i hRoom
      rcases hBuilt.split (n := 1) (by omega) with ⟨old, post, hHdr, hOld⟩
      have hWrite : writeBytes pkt.hdr pkt.payload [0xff] = some (bytes ++ ([0xff] ++ post)) := by
        rw [hHdr]
        exact writeBytes_append hBuilt.payload hOld
      simp only [hWrite, Option.bind_eq_bind, Option.bind_some, Option.some.injEq, Except.ok.injEq,
        Prod.mk.injEq] at hRun
      rcases hRun with ⟨rfl, rfl⟩
      have hPayload := hBuilt.payload
      have hBefore := hBuilt.room
      have hRoomLt := hBuilt.payloadLen_lt
      rw [hHdr] at hBefore
      simp only [List.length_append] at hBefore
      refine ⟨[0xff], ?_, ?_, .inl rfl⟩
      · rw [List.length_append, hPayload]
        rfl
      · exact
          { holds := ⟨post, (List.append_assoc _ _ _).symm⟩
            payload := by
              rw [List.length_append, ← hPayload]
              rfl
            room := by
              simp only [List.length_append, List.length_singleton]
              omega
            payloadLen_lt := by
              change pkt.payloadLen - 1 < 2 ^ 16
              omega
            stored := hBuilt.stored
            count := hBuilt.count
            last := hBuilt.last }
  · simp only [Option.some.injEq, Except.ok.injEq, Prod.mk.injEq] at hRun
    rcases hRun with ⟨rfl, rfl⟩
    refine ⟨[], ?_, ?_, .inr ⟨rfl, rfl⟩⟩
    · rw [List.append_nil]
      exact hBuilt.payload
    · rw [List.append_nil]
      have hRoom := hBuilt.room
      exact
        { holds := hBuilt.holds
          payload := hBuilt.payload
          room := by
            change pkt.payload + 0 ≤ pkt.hdr.length
            omega
          payloadLen_lt := by
            change 0 < 2 ^ 16
            omega
          stored := hBuilt.stored
          count := hBuilt.count
          last := hBuilt.last }

theorem coapPayloadPutBytes_spec
    (hBuilt : Built cfg pkt bytes last)
    (hRun : coapPayloadPutBytes pkt data = some (.ok (n, pkt'))) :
    n = data.length ∧ data.length ≤ pkt.payloadLen ∧
      ∃ post, pkt'.hdr = bytes ++ (data ++ post) := by
  unfold coapPayloadPutBytes at hRun
  split at hRun
  · simp at hRun
  · rename_i hRoom
    rcases hBuilt.split (n := data.length) (by omega) with ⟨old, post, hHdr, hOld⟩
    have hWrite : writeBytes pkt.hdr pkt.payload data = some (bytes ++ (data ++ post)) := by
      rw [hHdr]
      exact writeBytes_append hBuilt.payload hOld
    simp only [hWrite, Option.bind_eq_bind, Option.bind_some, Option.some.injEq, Except.ok.injEq,
      Prod.mk.injEq] at hRun
    rcases hRun with ⟨rfl, rfl⟩
    exact ⟨rfl, Nat.not_lt.mp hRoom, post, rfl⟩

/- The header and the token at the start of the buffer. -/
theorem coapBuildHdr_spec
    {type code id len : Nat} {token hdr : List UInt8} (hType : type < 4)
    (hToken : token.length ≤ coapTokenLengthMax)
    (hRun : coapBuildHdr buf type token code id = some (hdr, len)) :
    len = sizeofCoapHdr + token.length ∧ ∃ post, hdr =
        [UInt8.ofNat ((4 + type) * 16 + token.length), UInt8.ofNat code, UInt8.ofNat (id >>> 8),
          UInt8.ofNat id] ++ token ++ post := by
  have hByte : (0x1 <<< 6) ||| (type <<< 4) ||| token.length = (4 + type) * 16 + token.length := by
    have hAll : ∀ x < 4, ∀ y < 9, (0x1 <<< 6) ||| (x <<< 4) ||| y = (4 + x) * 16 + y := by
      decide
    exact hAll type hType token.length (Nat.lt_succ_of_le hToken)
  unfold coapTokenLengthMax at hToken
  have hAssert : ¬ (type > 0x3 ∨ token.length > 0x1f) := by
    omega
  simp only [coapBuildHdr, if_neg hAssert, hByte, Option.bind_eq_bind] at hRun
  rcases Option.bind_eq_some_iff.mp hRun with ⟨hdr₁, hFirst, hRun⟩
  rcases Option.bind_eq_some_iff.mp hRun with ⟨hdr₂, hSecond, hRun⟩
  rcases writeBytes_eq_some hFirst with ⟨_, hHdr₁⟩
  rcases writeBytes_eq_some hSecond with ⟨_, hHdr₂⟩
  simp only [Option.some.injEq, Prod.mk.injEq] at hRun
  rcases hRun with ⟨rfl, rfl⟩
  refine ⟨rfl, hdr₁.drop (sizeofCoapHdr + token.length), ?_⟩
  rw [hHdr₂, hHdr₁]
  rfl

/- What was built is the encoding of a message. -/
theorem coapBuild_spec
    (hRun : coapBuild cfg b buf = some (.ok bytes)) :
    ∃ m : CoapMessage, m.encode = bytes ∧ m.Fits cfg ∧
      m.token = b.token ∧ m.payload.getD [] = b.payload ∧ OptionsOf 0 b.adds m.options ∧
      b.payload.length < 2 ^ 16 := by
  unfold coapBuild at hRun
  rcases Option.bind_eq_some_iff.mp hRun with ⟨⟨hdr, headerLen⟩, hHeader, hRun⟩
  rcases Option.bind_eq_some_iff.mp hRun with ⟨added, hAdded, hRun⟩
  rcases coapBuildHdr_spec b.type.isLt b.token_le hHeader with ⟨hLen, post, hHdr⟩
  generalize hStart : [UInt8.ofNat ((4 + b.type) * 16 + b.token.length),
      UInt8.ofNat b.code.toNat, UInt8.ofNat (b.id.toNat >>> 8),
      UInt8.ofNat b.id.toNat] = start at hHdr
  have hInit : Built cfg (coapPktInit hdr headerLen) (start ++ b.token) 0 := by
    have hLength : headerLen = (start ++ b.token).length := by
      rw [hLen, ← hStart, List.length_append]
      rfl
    rw [hLength]
    exact built_coapPktInit hHdr
  cases added with
  | error e => simp at hRun
  | ok pkt =>
    rcases addOptions_spec hInit hAdded with ⟨os, last, hOptions, hBuilt, hCount⟩
    rcases Option.bind_eq_some_iff.mp hRun with ⟨finished, hFinished, hRun⟩
    cases finished with
    | error e => simp at hRun
    | ok r =>
      rcases r with ⟨len, pkt'⟩
      rcases coapOptFinish_spec hBuilt hFinished with ⟨tail, hLen', hBuilt', hTail⟩
      rcases Option.bind_eq_some_iff.mp hRun with ⟨put, hPut, hRun⟩
      cases put with
      | error e => simp at hRun
      | ok r =>
        rcases r with ⟨n, pkt''⟩
        rcases coapPayloadPutBytes_spec hBuilt' hPut with ⟨rfl, hRoom, post', hFinal⟩
        have hBytes : bytes = start ++ b.token ++ encodeOptions os ++ tail ++ b.payload := by
          have hTake : pkt''.hdr.take (len + b.payload.length) = bytes := by
            simpa using hRun
          rw [← hTake, hFinal, hLen', ← List.append_assoc, ← List.length_append, List.take_left]
        have hPayloadLt := hBuilt'.payloadLen_lt
        have hMax := hBuilt.count
        let payload : Option (List UInt8) := if tail = [] then none else some b.payload
        have hPayload :
            payload.getD [] = b.payload ∧ encodePayload payload = tail ++ b.payload := by
          rcases hTail with rfl | ⟨rfl, hZero⟩
          · exact ⟨rfl, rfl⟩
          · have hNil : b.payload = [] := by
              rw [← List.length_eq_zero_iff]
              omega
            rw [hNil]
            exact ⟨rfl, rfl⟩
        refine ⟨⟨4 + b.type, b.code, UInt8.ofNat (b.id.toNat >>> 8),
          UInt8.ofNat b.id.toNat, b.token, os, payload,
          by omega, b.token_le,
          fun h => absurd h b.code_ne⟩, ?_, ?_, rfl, hPayload.1, hOptions, by omega⟩
        · rw [hBytes, ← hStart, CoapMessage.encode_eq_cons]
          simp [hPayload.2]
        · have hRecorded := length_recordedOptions_le 0 (sizeofCoapHdr + b.token.length) os
          have hZero : (coapPktInit hdr headerLen).optionsLen = 0 := rfl
          change (recordedOptions 0 (sizeofCoapHdr + b.token.length) os).length ≤ _
          omega

----
-- Reading Back
----

/- What an iteration tells of an option. -/
def OptionVisit.content
    (buf : List UInt8) (v : OptionVisit) : Nat × Int × List UInt8 :=
  (v.optNum, v.len, (buf.drop v.value).take v.len.toNat)

/- What a call adds. -/
def OptAdd.content
    (a : OptAdd) : Nat × Int × List UInt8 :=
  (a.number, a.value.length, a.value)

/-
  An iteration over the packet goes over the added options,
  and the first one of each number is found by its number.
-/
def ReadsOptions
    (pkt : CoapPkt) (adds : List OptAdd) : Prop :=
  ∀ opt : CoapOptpos, ∃ fuel vs, iterateOptions pkt fuel opt true = some vs ∧
      vs.map (OptionVisit.content pkt.hdr) = adds.map OptAdd.content ∧
      ∀ as₁ a as₂, adds = as₁ ++ a :: as₂ → (∀ c ∈ as₁, c.number ≠ a.number) →
        ∃ v, vs[as₁.length]? = some v ∧ coapFindOption pkt a.number = some v.start

/- A number that was added first is read as it was. -/
def ReadsUints
    (pkt : CoapPkt) (adds : List OptAdd) : Prop :=
  ∀ as₁ optnum value as₂, adds = as₁ ++ .uint optnum value :: as₂ →
    (∀ c ∈ as₁, c.number ≠ optnum.toNat) →
    coapOptGetUint pkt optnum.toNat = some (.ok value.toNat)

/- The message is parsed to what it was built from. -/
def RoundTrips
    (cfg : NanocoapConfig) (b : MessageBuild) (bytes : List UInt8) : Prop :=
  ∃ pkt, coapParse cfg bytes = some (.ok pkt) ∧ pkt.hdr = bytes ∧ ReadsOptions pkt b.adds ∧
    ReadsUints pkt b.adds ∧
    (pkt.payloadLen = b.payload.length ∧ (bytes.drop pkt.payload).take pkt.payloadLen = b.payload) ∧
    (pkt.coapGetTokenLen = some b.token.length ∧
      (bytes.drop (pkt.token.getD 0)).take b.token.length = b.token)

/- The bytes that the options take. -/
def optionsSize : Nat → List OptAdd → Nat
| _, [] => 0
| last, a :: as =>
  (fieldHeader (a.number - last) a.value.length).length + a.value.length + optionsSize a.number as

variable {m : CoapMessage} {observe pos fuel nr : Nat} {a : OptAdd}
variable {as₁ as₂ : List OptAdd} {os : List CoapOption} {rest : List UInt8}

theorem OptionsOf.length_eq
    (hOptions : OptionsOf last as os) :
    os.length = as.length := by
  induction hOptions with
  | nil => rfl
  | cons _ _ _ _ ih => simp [ih]

theorem OptionsOf.size_eq
    (hOptions : OptionsOf last as os) :
    (encodeOptions os).length = optionsSize last as := by
  induction hOptions with
  | nil => rfl
  | @cons last a as o os hLe hDelta hValue _ ih =>
    rw [encodeOptions_cons, List.length_append, CoapOption.length_encode, ih, CoapOption.size,
      optionsSize, ← hDelta, ← hValue]
    rfl

/- The visits of the options tell what was added. -/
theorem OptionsOf.content_eq
    (hOptions : OptionsOf last as os)
    (hDrop : buf.drop pos = encodeOptions os ++ rest) :
    (visits last pos os).map (OptionVisit.content buf) = as.map OptAdd.content := by
  induction hOptions generalizing pos with
  | nil => rfl
  | @cons last a as o os hLe hDelta hValue hRest ih =>
    have hNumber := a.number_lt
    rw [encodeOptions_cons, List.append_assoc] at hDrop
    have hNext := drop_of_drop hDrop
    rw [CoapOption.length_encode] at hNext
    rw [CoapOption.encode, List.append_assoc] at hDrop
    have hValueDrop := drop_of_drop hDrop
    have hSum : last + o.delta = a.number := by
      omega
    have hContent : OptionVisit.content buf
            ⟨pos, pos + o.header.length, o.value.length, (last + o.delta) % 2 ^ 16⟩ =
          a.content := by
      rw [OptionVisit.content, OptAdd.content]
      simp only [Int.toNat_natCast, hValueDrop, List.take_left, hSum, Nat.mod_eq_of_lt hNumber,
        hValue]
    rw [visits, List.map_cons, List.map_cons, hContent, hSum, ih hNext]

/- The first option of a number is recorded and visited. -/
theorem OptionsOf.find_first
    (hOptions : OptionsOf last (as₁ ++ a :: as₂) os)
    (hFirst : ∀ c ∈ as₁, c.number ≠ a.number) (hNew : last ≠ a.number) (pos : Nat) :
    ∃ os₁ o os₂, os = os₁ ++ o :: os₂ ∧ o.value = a.value ∧ (recordedOptions last pos os).find?
          (fun e => e.optNum == a.number) =
        some ⟨a.number, (pos + (encodeOptions os₁).length) % 2 ^ 16⟩ ∧
      ∃ v, (visits last pos os)[as₁.length]? = some v ∧
        v.start = pos + (encodeOptions os₁).length := by
  induction as₁ generalizing last pos os with
  | nil =>
    rcases hOptions with _ | ⟨hLe, hDelta, hValue, hRest⟩
    rename_i o os
    have hNumber := a.number_lt
    have hSum : last + o.delta = a.number := by
      omega
    have hNonzero : o.delta ≠ 0 := by
      omega
    refine ⟨[], o, os, rfl, hValue, ?_, ?_⟩
    · simp only [recordedOptions, hNonzero, if_false, hSum, Nat.mod_eq_of_lt hNumber,
        List.find?_cons, beq_self_eq_true, encodeOptions_nil, List.length_nil, Nat.add_zero]
    · exact ⟨_, rfl, rfl⟩
  | cons c as₁ ih =>
    rcases hOptions with _ | ⟨hLe, hDelta, hValue, hRest⟩
    rename_i o os
    have hNumber := c.number_lt
    have hSum : last + o.delta = c.number := by
      omega
    have hOther : c.number ≠ a.number := hFirst c List.mem_cons_self
    rcases ih hRest
        (fun d hd => hFirst d (List.mem_cons_of_mem _ hd))
        hOther (pos + o.size) with
      ⟨os₁, o', os₂, rfl, hValue', hFind, v, hVisit, hStart⟩
    refine ⟨o :: os₁, o', os₂, rfl, hValue', ?_, v, ?_, ?_⟩
    · have hLength :
          pos + (encodeOptions (o :: os₁)).length = pos + o.size + (encodeOptions os₁).length := by
        simp [Nat.add_assoc]
      rw [recordedOptions, hSum, hLength]
      by_cases hZero : o.delta = 0
      · simpa only [hZero, if_true] using hFind
      · simp only [hZero, if_false, List.find?_cons,
          Nat.mod_eq_of_lt hNumber, beq_eq_false_iff_ne.mpr hOther]
        exact hFind
    · rw [visits, hSum]
      exact hVisit
    · rw [hStart]
      simp [Nat.add_assoc]

/- The option number zero is not recorded. -/
theorem OptionsOf.recorded_ne_zero
    (hOptions : OptionsOf last as os) :
    ∀ e ∈ recordedOptions last pos os, e.optNum ≠ 0 := by
  induction hOptions generalizing pos with
  | nil =>
    intro e he
    cases he
  | @cons last a as o os hLe hDelta hValue hRest ih =>
    have hNumber := a.number_lt
    have hSum : last + o.delta = a.number := by
      omega
    intro e he
    rw [recordedOptions, hSum] at he
    split at he
    · exact ih e he
    · rename_i hNonzero
      rcases List.mem_cons.mp he with rfl | he
      · change a.number % 2 ^ 16 ≠ 0
        omega
      · exact ih e he

----
-- Numbers
----

theorem usedBytes_eq
    (n : Nat) (hn : n < 2 ^ 32) :
    usedBytes 4 n = if n = 0 then 0 else if n < 2 ^ 8 then 1 else if n < 2 ^ 16 then 2
      else if n < 2 ^ 24 then 3
      else 4 := by
  simp only [usedBytes, Nat.shiftRight_eq_div_pow, Nat.div_div_eq_div_mul]
  repeat' split
  all_goals omega

theorem length_encodeUint
    (value : UInt32) :
    (encodeUint value).length = usedBytes 4 value.toNat := by
  have hLt := value.toNat_lt
  have hLength : (htonl value.toNat).length = 4 := rfl
  have hFour : usedBytes 4 value.toNat ≤ 4 := by
    rw [usedBytes_eq _ hLt]
    repeat' split
    all_goals omega
  rw [encodeUint, List.length_drop, hLength]
  omega

/- The bytes of a number give the number again. -/
theorem fromNetwork_encodeUint
    (value : UInt32) :
    fromNetwork (encodeUint value) = value.toNat := by
  have hLt := value.toNat_lt
  rw [encodeUint, usedBytes_eq _ hLt]
  generalize value.toNat = n at hLt
  -- the bytes left out are zero
  repeat' split
  all_goals
    simp only [htonl, htons, fromNetwork, List.cons_append, List.nil_append, Nat.sub_zero,
      Nat.sub_self, List.drop_succ_cons, List.drop_zero, List.foldl_cons, List.foldl_nil,
      UInt8.toNat_ofNat', Nat.shiftRight_eq_div_pow, Nat.reduceSub, List.drop_nil]
    omega

variable {value : UInt32} {o : CoapOption}
variable {os₁ os₂ : List CoapOption}

/- Reading a number where it was found. -/
theorem coapOptGetUint_context
    (hSplit : m.options = os₁ ++ o :: os₂) (hValue : o.value = encodeUint value)
    (hFind : coapFindOption (m.context observe) n =
        some (sizeofCoapHdr + m.token.length + (encodeOptions os₁).length)) :
    coapOptGetUint (m.context observe) n = some (.ok value.toNat) := by
  have hParse : parseOption (m.context observe) _ = _ := m.parseOption_context hSplit
  have hDrop := m.drop_of_split hSplit
  have hEnd := m.end_of_split hSplit
  have hOptionsEnd := m.optionsEnd_le
  have hPayload := m.payloadStart_le
  have hFour : o.value.length ≤ 4 := by
    have hLt := value.toNat_lt
    rw [hValue, length_encodeUint, usedBytes_eq _ hLt]
    repeat' split
    all_goals omega
  have hNumber := fromNetwork_encodeUint value
  rw [← hValue] at hNumber
  have hLong : ¬ ((o.value.length : Int) > 4) := by
    omega
  have hNonneg : (o.value.length : Int) ≥ 0 := by
    omega
  simp only [coapOptGetUint, hFind, hParse, Option.bind_eq_bind, Option.bind_some, Option.map_some,
    Option.getD_some, if_pos hNonneg, if_neg hLong, Int.toNat_natCast]
  unfold decodeUint
  by_cases hZero : o.value.length = 0
  · have hNil : o.value = [] := List.length_eq_zero_iff.mp hZero
    rw [hNil] at hNumber
    rw [if_pos hZero, ← hNumber]
    rfl
  · rw [if_neg hZero]
    rw [CoapOption.encode, List.append_assoc] at hDrop
    rw [CoapOption.size] at hEnd
    have hRead := readBytes_of_drop (drop_of_drop hDrop) (by omega)
    change ((readBytes m.encode _ _).bind _).bind _ = _
    rw [hRead, Option.bind_some, Option.bind_some, hNumber]

----
-- Round Trips
----

variable {vs : List OptionVisit}

/-
  Below 2^16 there is no end of the options if the payload
  starts later.
-/
theorem iterateOptions_ne_some
    {opt : CoapOptpos} (hPayload : 2 ^ 16 < m.payloadStart)
    (hOffset : opt.offset < 2 ^ 16) :
    iterateOptions (m.context observe) fuel opt false ≠ some vs := by
  induction fuel generalizing opt vs with
  | zero => simp [iterateOptions]
  | succ fuel ih =>
    intro hRun
    rcases iterateOptions_found (by omega) hRun with
      ⟨fuel', v, tail, opt', hFuel, _, _, hOffset', hRest⟩
    obtain rfl : fuel' = fuel := by
      omega
    exact ih hOffset' hRest

/- Where the options go past 2^16, there are more visits. -/
theorem iterateOptions_length
    (hSplit : m.options = os₁ ++ os₂)
    (hPos : pos = sizeofCoapHdr + m.token.length + (encodeOptions os₁).length)
    (hBelow : pos < 2 ^ 16) (hEnd : 2 ^ 16 ≤ m.optionsEnd)
    (hRun : iterateOptions (m.context observe) fuel ⟨nr % 2 ^ 16, pos⟩ false = some vs) :
    os₂.length < vs.length := by
  induction os₂ generalizing os₁ nr pos fuel vs with
  | nil =>
    have hLast : pos = m.optionsEnd := by
      rw [hPos, CoapMessage.optionsEnd, hSplit, List.append_nil]
    omega
  | cons o os₂ ih =>
    cases fuel with
    | zero => cases hRun
    | succ fuel =>
      have hNext := coapOptGetNext_context observe nr hSplit hPos
      have hBound := CoapMessage.end_of_split hSplit
      have hPayload := m.optionsEnd_le
      simp only [iterateOptions, hNext, Option.bind_eq_bind, Option.bind_some] at hRun
      rcases Option.bind_eq_some_iff.mp hRun with ⟨rest, hRest, hVisit⟩
      have hVisit := Option.some.inj hVisit
      subst hVisit
      rcases split_snoc hSplit hPos with ⟨hSplit', hPos'⟩
      rw [List.length_cons, List.length_cons]
      by_cases hStay : pos + o.size < 2 ^ 16
      · rw [Nat.mod_eq_of_lt hStay] at hRest
        have hMore := ih hSplit' hPos' hStay hRest
        omega
      · cases os₂ with
        | nil =>
          -- one more call finds something
          rcases iterateOptions_found (by simp only; omega) hRest with ⟨_, v, tail, _, _, rfl, _⟩
          simp
        | cons o' os₂ =>
          have hBound' := m.end_of_split hSplit'
          have hSize := o'.size_pos
          rw [← hPos'] at hBound'
          exact absurd hRest (iterateOptions_ne_some (by omega) (Nat.mod_lt _ (by decide)))

variable {adds : List OptAdd}

section

variable (hOptions : OptionsOf 0 adds m.options)

include hOptions

theorem readsOptions_context
    (hNonzero : ∀ a ∈ adds, a.number ≠ 0) (hEnd : m.optionsEnd < 2 ^ 16) :
    ReadsOptions (m.context observe) adds := by
  intro opt
  refine ⟨m.options.length + 1, visits 0 (sizeofCoapHdr + m.token.length) m.options, ?_, ?_, ?_⟩
  · rw [iterateOptions_init]
    exact iterateOptions_context (List.nil_append _).symm rfl hEnd (Nat.lt_succ_self _)
  · exact hOptions.content_eq m.encode_drop
  · intro as₁ a as₂ hAdds hFirst
    rw [hAdds] at hOptions
    have hMem : a ∈ adds := by
      rw [hAdds]
      simp
    rcases hOptions.find_first hFirst (hNonzero a hMem).symm
        (sizeofCoapHdr + m.token.length) with
      ⟨os₁, o, os₂, hSplit, _, hFind, v, hVisit, hStart⟩
    refine ⟨v, hVisit, ?_⟩
    have hBound := m.end_of_split hSplit
    rw [coapFindOption_context, CoapMessage.recorded, hFind, hStart, Nat.mod_eq_of_lt (by omega)]
    rfl

theorem readsUints_context
    (hNonzero : ∀ a ∈ adds, a.number ≠ 0) (hEnd : m.optionsEnd < 2 ^ 16) :
    ReadsUints (m.context observe) adds := by
  intro as₁ optnum value as₂ hAdds hFirst
  rw [hAdds] at hOptions
  have hMem : OptAdd.uint optnum value ∈ adds := by
    rw [hAdds]
    simp
  rcases hOptions.find_first hFirst (hNonzero _ hMem).symm
      (sizeofCoapHdr + m.token.length) with
    ⟨os₁, o, os₂, hSplit, hValue, hFind, _⟩
  refine coapOptGetUint_context hSplit hValue ?_
  have hBound := m.end_of_split hSplit
  change _ = some _ at hFind
  rw [coapFindOption_context, CoapMessage.recorded]
  rw [Nat.mod_eq_of_lt (by omega)] at hFind
  exact congrArg (Option.map CoapOptpos.offset) hFind

/- The number zero is not found, though it was added. -/
theorem ne_zero_of_readsOptions
    (hReads : ReadsOptions (m.context observe) adds) :
    ∀ a ∈ adds, a.number ≠ 0 := by
  intro a ha hZero
  have hSome : (adds.find? (fun c => c.number == 0)).isSome := by
    rw [List.find?_isSome]
    exact ⟨a, ha, by simpa using hZero⟩
  rcases Option.isSome_iff_exists.mp hSome with ⟨c, hc⟩
  rcases List.find?_eq_some_iff_append.mp hc with ⟨hcZero, as₁, as₂, hAdds, hFirst⟩
  have hcZero : c.number = 0 := by
    simpa using hcZero
  rcases hReads ⟨0, 0⟩ with ⟨_, _, _, _, hFinds⟩
  rcases hFinds as₁ c as₂ hAdds (by
      intro d hd
      simpa [hcZero] using hFirst d hd) with ⟨v, _, hFind⟩
  have hFound : coapFindOption (m.context observe) c.number ≠ none := by
    rw [hFind]
    simp
  rcases coapFindOption_ne_none_iff.mp hFound with ⟨e, he, heNum⟩
  exact hOptions.recorded_ne_zero e he (heNum.trans hcZero)

theorem optionsEnd_lt_of_readsOptions
    (hReads : ReadsOptions (m.context observe) adds) :
    m.optionsEnd < 2 ^ 16 := by
  by_contra hEnd
  rcases hReads ⟨0, 0⟩ with ⟨fuel, vs, hRun, hContent, _⟩
  rw [iterateOptions_init] at hRun
  have hMore :=
    iterateOptions_length (List.nil_append _).symm rfl tokenEnd_lt (Nat.not_lt.mp hEnd) hRun
  have hSame := congrArg List.length hContent
  rw [List.length_map, List.length_map] at hSame
  rw [hOptions.length_eq] at hMore
  omega

end

/-
  A message that was built is parsed to what it was built
  from exactly if no option has the number zero and the
  options end within the first 65535 bytes.
-/
theorem roundTrips_iff
    (cfg : NanocoapConfig) (b : MessageBuild) (buf bytes : List UInt8)
    (hBuild : coapBuild cfg b buf = some (.ok bytes)) :
    RoundTrips cfg b bytes ↔ (∀ a ∈ b.adds, a.number ≠ 0) ∧
      sizeofCoapHdr + b.token.length + optionsSize 0 b.adds < 2 ^ 16 := by
  rcases coapBuild_spec hBuild with ⟨m, hEncode, hFits, hToken, hPayload, hOptions, hShort⟩
  have hEnd : m.optionsEnd = sizeofCoapHdr + b.token.length + optionsSize 0 b.adds := by
    rw [CoapMessage.optionsEnd, hToken, hOptions.size_eq]
  rcases coapParse_encode hFits with ⟨observe, hParse⟩
  rw [hEncode] at hParse
  rw [← hEnd]
  constructor
  · rintro ⟨pkt, hParse', _, hReads, _⟩
    rw [hParse] at hParse'
    have hPkt : m.context observe = pkt := by
      simpa using hParse'
    rw [← hPkt] at hReads
    exact ⟨ne_zero_of_readsOptions hOptions hReads, optionsEnd_lt_of_readsOptions hOptions hReads⟩
  · rintro ⟨hNonzero, hBelow⟩
    refine ⟨m.context observe, hParse, hEncode, readsOptions_context hOptions hNonzero hBelow,
      readsUints_context hOptions hNonzero hBelow, ?_, ?_⟩
    · have hLength : (m.context observe).payloadLen = b.payload.length := by
        change (m.payload.getD []).length % 2 ^ 16 = _
        rw [hPayload, Nat.mod_eq_of_lt hShort]
      refine ⟨hLength, ?_⟩
      rw [hLength, ← hEncode, ← hPayload]
      exact m.take_payload
    · refine ⟨?_, ?_⟩
      · rw [CoapMessage.coapGetTokenLen_context, hToken]
      · rw [← hEncode, ← hToken]
        exact m.take_token observe

/- A request with a token, two options and a payload. -/
def sampleBuild : MessageBuild where
  type := 1
  token := [0x2a]
  code := 0x02
  id := 0x1234
  adds := [.bytes 11 [0x61, 0x62], .uint 14 300]
  flags := 1
  payload := [0x68, 0x69]
  token_le := by decide
  code_ne := by decide

theorem roundTrips_sampleBuild :
    coapBuild ⟨16, true, by decide⟩ sampleBuild
        (List.replicate 20 0) = some (.ok [0x51, 0x02, 0x12, 0x34, 0x2a,
        0xb2, 0x61, 0x62, 0x32, 0x01, 0x2c, 0xff, 0x68, 0x69]) ∧
    RoundTrips ⟨16, true, by decide⟩ sampleBuild
      [0x51, 0x02, 0x12, 0x34, 0x2a, 0xb2, 0x61, 0x62, 0x32, 0x01, 0x2c, 0xff, 0x68, 0x69] := by
  have hBuild :
      coapBuild ⟨16, true, by decide⟩ sampleBuild
          (List.replicate 20 0) = some (.ok [0x51, 0x02, 0x12, 0x34, 0x2a,
          0xb2, 0x61, 0x62, 0x32, 0x01, 0x2c, 0xff, 0x68, 0x69]) := by
    decide
  refine ⟨hBuild, ?_⟩
  exact (roundTrips_iff _ _ _ _ hBuild).mpr ⟨by decide, by decide⟩

/- A message with an empty option of the number zero. -/
def zeroOption : MessageBuild where
  type := 0
  token := []
  code := 0x01
  id := 0
  adds := [.bytes 0 []]
  flags := 0
  payload := []
  token_le := noToken_le
  code_ne := by decide

theorem not_roundTrips_zeroOption :
    coapBuild ⟨16, false, by decide⟩ zeroOption
        (List.replicate 8 0) = some (.ok [0x40, 0x01, 0x00, 0x00, 0x00]) ∧
    ¬ RoundTrips ⟨16, false, by decide⟩ zeroOption [0x40, 0x01, 0x00, 0x00, 0x00] := by
  have hBuild :
      coapBuild ⟨16, false, by decide⟩ zeroOption
          (List.replicate 8 0) = some (.ok [0x40, 0x01, 0x00, 0x00, 0x00]) := by
    decide
  refine ⟨hBuild, ?_⟩
  rintro ⟨pkt, hParse, _, hReads, _⟩
  rcases coapBuild_spec hBuild with ⟨m, hEncode, hFits, _, _, hOptions, _⟩
  rcases coapParse_encode hFits with ⟨observe, hContext⟩
  rw [hEncode, hParse] at hContext
  have hPkt : pkt = m.context observe := by
    simpa using hContext
  rw [hPkt] at hReads
  exact ne_zero_of_readsOptions hOptions hReads (.bytes 0 []) List.mem_cons_self rfl

end Riot
