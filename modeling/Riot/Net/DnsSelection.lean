import Riot.Net.DnsReply

/-
  Which answer of a well-formed DNS reply is taken.

  An unwanted answer is skipped without the two bytes of its
  length, and the labels before a pointer hide the pointer. The
  right address is found where neither is met on the way.
-/

----
-- Well-Formed Replies
----

namespace Riot

def dnsShort
    (n : Nat) : List UInt8 :=
  [UInt8.ofNat (n / 256), UInt8.ofNat (n % 256)]

def encodeLabels
    (labels : List (List UInt8)) : List UInt8 :=
  labels.flatMap (fun l => UInt8.ofNat l.length :: l)

/- Labels, and the root or a pointer. -/
structure DnsName where
  labels : List (List UInt8)
  pointer : Option (UInt8 × UInt8)
  labelsFit : ∀ l ∈ labels, l ≠ [] ∧ l.length ≤ 63
  pointerTagged : ∀ p ∈ pointer, 192 ≤ p.1.toNat

def DnsName.encode
    (name : DnsName) : List UInt8 :=
  encodeLabels name.labels ++ (name.pointer.map (fun p => [p.1, p.2])).getD [0]

/- A name that is not made of labels and a pointer. -/
def DnsName.Unmixed
    (name : DnsName) : Prop :=
  name.labels = [] ∨ name.pointer = none

/- The fields are the type and the class. -/
structure DnsQuestion where
  name : DnsName
  fields : List UInt8
  fieldsFit : fields.length = 4

structure DnsRecord where
  name : DnsName
  type : Nat
  cls : Nat
  ttl : List UInt8
  rdata : List UInt8
  fits : type < 2 ^ 16 ∧ cls < 2 ^ 16 ∧ ttl.length = 4 ∧ rdata.length < 2 ^ 16
  addressFits : cls = 1 → (type = 1 → rdata.length = 4) ∧ (type = 28 → rdata.length = 16)

/- `head` is the id and the flags; `others` counts the rest. -/
structure DnsMessage where
  head : List UInt8
  others : List UInt8
  questions : List DnsQuestion
  answers : List DnsRecord
  rest : List UInt8
  fits : head.length = 4 ∧ others.length = 4 ∧ questions.length < 2 ^ 16 ∧ answers.length < 2 ^ 16

def DnsQuestion.encode
    (q : DnsQuestion) : List UInt8 :=
  q.name.encode ++ q.fields

def DnsRecord.encode
    (r : DnsRecord) : List UInt8 :=
  r.name.encode ++ (dnsShort r.type ++ (dnsShort r.cls ++ (r.ttl ++
    (dnsShort r.rdata.length ++ r.rdata))))

def DnsMessage.encode
    (m : DnsMessage) : List UInt8 :=
  m.head ++ (dnsShort m.questions.length ++ (dnsShort m.answers.length ++ (m.others ++
    (m.questions.flatMap DnsQuestion.encode ++ (m.answers.flatMap DnsRecord.encode ++ m.rest)))))

/- An address of the internet that fits the family. -/
def DnsRecord.Wanted
    (r : DnsRecord) (family : DnsFamily) : Prop :=
  r.cls = 1 ∧ (r.type = 1 ∧ family ≠ .inet6 ∨ r.type = 28 ∧ family ≠ .inet)

instance (r : DnsRecord) (family : DnsFamily) : Decidable (r.Wanted family) :=
  inferInstanceAs (Decidable (_ ∧ _))

/- The first wanted answer is taken; without one, none is. -/
def DnsMessage.Selects
    (m : DnsMessage) (family : DnsFamily) : Prop :=
  match m.answers.find? (fun r => r.Wanted family) with
  | some r => parseDnsReply m.encode family = .ok r.rdata
  | none => ∃ res ≤ 0, parseDnsReply m.encode family = .error (.ret res)

----
-- Selection
----

variable {buf p q : List UInt8} {family : DnsFamily} {name : DnsName} {i n : Nat}

theorem dnsReadByte_append
    {b : UInt8} :
    dnsReadByte (p ++ b :: q) p.length = .ok b.toNat := by
  simp [dnsReadByte]

theorem dnsOk_bind
    {α β : Type} {a : α} {f : α → Except DnsEnd β} :
    (Except.ok a >>= f) = f a :=
  rfl

theorem dnsGetShort_append
    (hFits : n < 2 ^ 16) :
    dnsGetShort (p ++ (dnsShort n ++ q)) p.length = .ok n := by
  have hSecond := @dnsReadByte_append (p ++ [UInt8.ofNat (n / 256)]) q (UInt8.ofNat (n % 256))
  rw [List.append_assoc, List.length_append, List.length_singleton, List.singleton_append]
    at hSecond
  have hJoin : n / 256 % 256 * 256 + n % 256 % 256 = n := by
    omega
  simp only [dnsGetShort, dnsShort, List.cons_append, List.nil_append, dnsReadByte_append,
    dnsOk_bind, hSecond, UInt8.toNat_ofNat']
  rw [hJoin]
  rfl

/- Labels are skipped up to the root. -/
theorem skipLabels_encode
    {labels : List (List UInt8)} {turns res : Nat}
    (hFits : ∀ l ∈ labels, l ≠ [] ∧ l.length ≤ 63)
    (hTurns : (encodeLabels labels).length < turns)
    (hBuf : buf = p ++ (encodeLabels labels ++ 0 :: q))
    (hPos : p.length = i + res) :
    skipLabels buf i turns res = .ok (res + (encodeLabels labels).length + 1) := by
  induction labels generalizing p turns res with
  | nil =>
    rcases turns with _ | turns
    · simp at hTurns
    rw [skipLabels, hBuf, ← hPos]
    show (dnsReadByte (p ++ 0 :: q) p.length >>= _) = _
    rw [dnsReadByte_append]
    rfl
  | cons l labels ih =>
    rcases turns with _ | turns
    · simp at hTurns
    rcases hFits l (List.mem_cons_self ..) with ⟨hNe, hLe⟩
    have hLen : (UInt8.ofNat l.length).toNat = l.length := by
      rw [UInt8.toNat_ofNat']
      omega
    have hPositive := List.length_pos_iff.mpr hNe
    have hSplit : buf = (p ++ UInt8.ofNat l.length :: l) ++ (encodeLabels labels ++ 0 :: q) := by
      simp [hBuf, encodeLabels]
    have hRead : dnsReadByte buf (i + res) = .ok l.length := by
      rw [hBuf, ← hPos, ← hLen]
      exact dnsReadByte_append
    rw [encodeLabels, List.flatMap_cons, ← encodeLabels, List.length_append, List.length_cons]
      at hTurns ⊢
    have hNext := @ih _ turns (res + (l.length + 1))
      (fun l h => hFits l (List.mem_cons_of_mem _ h)) (by omega) hSplit (by simp; omega)
    have hInside : ¬ buf.length ≤ i + (res + (l.length + 1)) := by
      simp [hSplit]
      omega
    rw [skipLabels, hRead]
    simp only [dnsOk_bind, if_neg (Nat.ne_of_gt hPositive), if_neg hInside]
    rw [hNext]
    congr 1
    omega

theorem skipHostname_encode
    (hUnmixed : name.Unmixed) (hRest : q ≠ []) :
    skipHostname (p ++ (name.encode ++ q)) p.length = .ok name.encode.length := by
  rcases name with ⟨labels, pointer, hFits, hTagged⟩
  have hPositive := List.length_pos_iff.mpr hRest
  cases pointer with
  | some t =>
    have hLabels : labels = [] := hUnmixed.resolve_right (by simp)
    have hFirst := hTagged t rfl
    have hInside : ¬ (p ++ (t.1 :: t.2 :: q)).length ≤ p.length := by
      simp
    have hInside' : ¬ (p ++ (t.1 :: t.2 :: q)).length ≤ p.length + 2 := by
      simp
      omega
    simp only [DnsName.encode, hLabels, encodeLabels, List.flatMap_nil, List.nil_append,
      Option.map_some, Option.getD_some, List.cons_append, skipHostname, if_neg hInside,
      dnsReadByte_append, dnsOk_bind, if_pos hFirst, if_neg hInside']
    rfl
  | none =>
    have hFirst : ∃ b t, encodeLabels labels ++ 0 :: q = b :: t ∧ b.toNat < 192 := by
      cases labels with
      | nil => exact ⟨0, q, rfl, by decide⟩
      | cons l labels =>
        refine ⟨UInt8.ofNat l.length, l ++ (encodeLabels labels ++ 0 :: q), ?_, ?_⟩
        · simp [encodeLabels]
        · have := (hFits l (List.mem_cons_self ..)).2
          rw [UInt8.toNat_ofNat']
          omega
    have hSkip := @skipLabels_encode _ p q p.length labels
      (p ++ (encodeLabels labels ++ 0 :: q)).length 0 hFits (by simp; omega) rfl rfl
    rw [Nat.zero_add] at hSkip
    simp only [DnsName.encode, Option.map_none, Option.getD_none, List.append_assoc,
      List.singleton_append]
    rcases hFirst with ⟨b, t, hEq, hLt⟩
    rw [hEq] at hSkip ⊢
    have hInside : ¬ (p ++ b :: t).length ≤ p.length := by
      simp
    simp only [skipHostname, if_neg hInside, dnsReadByte_append, dnsOk_bind,
      if_neg (Nat.not_le.mpr hLt), hSkip]
    rw [List.length_append]
    rfl

theorem skipQueries_encode
    {qs : List DnsQuestion} (hUnmixed : ∀ a ∈ qs, a.name.Unmixed) :
    skipQueries (p ++ (qs.flatMap DnsQuestion.encode ++ q)) qs.length p.length =
      .ok (p ++ qs.flatMap DnsQuestion.encode).length := by
  induction qs generalizing p with
  | nil => simp [skipQueries, pure, Except.pure]
  | cons a qs ih =>
    have hFields := a.fieldsFit
    have hName := @skipHostname_encode p (a.fields ++ (qs.flatMap DnsQuestion.encode ++ q)) a.name
      (hUnmixed a (List.mem_cons_self ..)) (by rw [← List.length_pos_iff]; simp; omega)
    have hNext := @ih (p ++ a.encode) (fun b h => hUnmixed b (List.mem_cons_of_mem _ h))
    have hStart : (p ++ a.encode).length = p.length + a.name.encode.length + (2 + 2) := by
      simp [DnsQuestion.encode, hFields, Nat.add_assoc]
    rw [hStart] at hNext
    simp only [List.flatMap_cons, List.append_assoc, DnsQuestion.encode] at hNext ⊢
    rw [List.length_cons, skipQueries, hName, dnsOk_bind, hNext]

/- An answer is unwanted for the parser exactly if it is not wanted. -/
theorem dnsUnwanted_iff
    {r : DnsRecord} :
    dnsUnwanted family r.type r.cls ↔ ¬ r.Wanted family := by
  cases family
  all_goals
    simp [dnsUnwanted, DnsRecord.Wanted]
    omega

/- What the first answer gives. -/
theorem dnsAnswer_encode
    {r : DnsRecord} (hUnmixed : r.name.Unmixed)
    (hBuf : buf = p ++ (r.encode ++ q)) :
    (r.Wanted family → dnsAnswer buf family p.length = .ok (.inr r.rdata)) ∧ (¬ r.Wanted family →
        (∃ next, dnsAnswer buf family p.length = .ok (.inl next)) ∨
          dnsAnswer buf family p.length = .error (.ret (-ebadmsg))) := by
  rcases r.fits with ⟨hType, hCls, hTtl, hData⟩
  have hSplit : buf = p ++ (r.name.encode ++ (dnsShort r.type ++ (dnsShort r.cls ++ (r.ttl ++
      (dnsShort r.rdata.length ++ (r.rdata ++ q)))))) := by
    simp [hBuf, DnsRecord.encode]
  have hName : skipHostname buf p.length = .ok r.name.encode.length := by
    rw [hSplit]
    exact skipHostname_encode hUnmixed (by simp [dnsShort])
  have hGetType : dnsGetShort buf (p.length + r.name.encode.length) = .ok r.type := by
    rw [hSplit, ← List.append_assoc, ← List.length_append]
    exact dnsGetShort_append hType
  have hGetCls : dnsGetShort buf (p.length + r.name.encode.length + 2) = .ok r.cls := by
    have := @dnsGetShort_append (p ++ (r.name.encode ++ dnsShort r.type)) (r.ttl ++
      (dnsShort r.rdata.length ++ (r.rdata ++ q))) r.cls hCls
    simpa [hSplit, Nat.add_assoc, dnsShort] using this
  have hGetLen :
      dnsGetShort buf (p.length + r.name.encode.length + 2 + 2 + 4) = .ok r.rdata.length := by
    have := @dnsGetShort_append (p ++ (r.name.encode ++ (dnsShort r.type ++ (dnsShort r.cls ++
      r.ttl)))) (r.rdata ++ q) r.rdata.length hData
    simpa [hSplit, Nat.add_assoc, dnsShort, hTtl] using this
  have hTake : (buf.drop (p.length + r.name.encode.length + 2 + 2 + 4 + 2)).take r.rdata.length =
      r.rdata := by
    have := @List.drop_left _ (p ++ (r.name.encode ++ (dnsShort r.type ++ (dnsShort r.cls ++
      (r.ttl ++ dnsShort r.rdata.length))))) (r.rdata ++ q)
    rw [← @List.take_left _ r.rdata q, ← this]
    simp [hSplit, Nat.add_assoc, dnsShort, hTtl]
  have hLength : buf.length = p.length + r.name.encode.length + 2 + 2 + 4 + 2 + r.rdata.length +
      q.length := by
    simp [hSplit, dnsShort, hTtl]
    omega
  have hLong : ¬ buf.length ≤ p.length + r.name.encode.length + 2 + 2 + 4 := by
    omega
  have hUnwanted := @dnsUnwanted_iff family r
  simp only [dnsAnswer, hName, dnsOk_bind, if_neg hLong, hGetType, hGetCls, hGetLen]
  constructor
  · intro hWanted
    have hFamily : ¬ (r.rdata.length ≠ 4 ∧ family = .inet ∨ r.rdata.length ≠ 16 ∧ family = .inet6 ∨
        r.rdata.length ≠ 16 ∧ r.rdata.length ≠ 4 ∧ family = .unspec) := by
      rcases hWanted with ⟨hIn, ⟨hA, hNe⟩ | ⟨hA, hNe⟩⟩
      · simp [(r.addressFits hIn).1 hA, hNe]
      · simp [(r.addressFits hIn).2 hA, hNe]
    have hFits : ¬ buf.length <
        p.length + r.name.encode.length + 2 + 2 + 4 + 2 + r.rdata.length := by
      omega
    simp only [if_neg (fun h => hUnwanted.mp h hWanted), if_neg hFamily, if_neg hFits, hTake]
    rfl
  · intro hNot
    simp only [if_pos (hUnwanted.mpr hNot)]
    split
    · exact .inr rfl
    · exact .inl ⟨_, rfl⟩

/-
  The right address is selected if no name up to the first answer
  is labels and a pointer, and no unwanted answer has a next one.
-/
theorem parseDnsReply_selects
    (m : DnsMessage) (family : DnsFamily)
    (hQuestions : ∀ a ∈ m.questions, a.name.Unmixed)
    (hAnswer : ∀ r ∈ m.answers.head?,
      r.name.Unmixed ∧ (r.Wanted family ∨ m.answers.length = 1)) :
    m.Selects family := by
  rcases m.fits with ⟨hHead, hOthers, hQd, hAn⟩
  have hGetQd : dnsGetShort m.encode 4 = .ok m.questions.length := by
    rw [← hHead]
    exact dnsGetShort_append hQd
  have hGetAn : dnsGetShort m.encode 6 = .ok m.answers.length := by
    have := @dnsGetShort_append (m.head ++ dnsShort m.questions.length) (m.others ++
      (m.questions.flatMap DnsQuestion.encode ++ (m.answers.flatMap DnsRecord.encode ++ m.rest)))
      m.answers.length hAn
    simpa [DnsMessage.encode, dnsShort, hHead] using this
  have hSplit : ∃ start, start.length = 12 ∧ m.encode = start ++
      (m.questions.flatMap DnsQuestion.encode ++ (m.answers.flatMap DnsRecord.encode ++ m.rest)) :=
    ⟨m.head ++ (dnsShort m.questions.length ++ (dnsShort m.answers.length ++ m.others)),
      by simp [dnsShort, hHead, hOthers], by simp [DnsMessage.encode]⟩
  rcases hSplit with ⟨start, hStart, hSplit⟩
  have hSkip := @skipQueries_encode start (m.answers.flatMap DnsRecord.encode ++ m.rest) m.questions
    hQuestions
  rw [← hSplit, hStart] at hSkip
  unfold DnsMessage.Selects parseDnsReply
  simp only [hGetQd, hGetAn, hSkip, dnsOk_bind]
  cases hAnswers : m.answers with
  | nil => exact ⟨-1, by decide, rfl⟩
  | cons r rs =>
    have hFirst := hAnswer r (by simp [hAnswers])
    rw [hAnswers, List.flatMap_cons, List.append_assoc, ← List.append_assoc] at hSplit
    have hParsed := @dnsAnswer_encode _ _ _ family r hFirst.1 hSplit
    rw [List.length_cons, dnsAnswers]
    by_cases hWanted : r.Wanted family
    · rw [hParsed.1 hWanted, List.find?_cons_of_pos (by simpa using hWanted)]
      rfl
    · have hOnly : rs = [] := by
        simpa [hAnswers] using hFirst.2.resolve_left hWanted
      rw [hOnly, List.find?_cons_of_neg (by simpa using hWanted)]
      rcases hParsed.2 hWanted with ⟨next, hNext⟩ | hEnd
      · rw [hNext]
        exact ⟨-1, by decide, rfl⟩
      · rw [hEnd]
        exact ⟨-ebadmsg, by decide, rfl⟩

/- The address of `a`, behind another record if there is one. -/
def addressReply
    (front : List DnsRecord)
    (hFew : front.length < 2) :
    DnsMessage where
  head := [0, 0, 0x80, 0]
  others := [0, 0, 0, 0]
  questions := [⟨⟨[[97]], none, by decide, by simp⟩, [0, 1, 0, 1], rfl⟩]
  answers := front ++
    [⟨⟨[], some (192, 12), by simp, by simp⟩, 1, 1, [0, 0, 0, 9], [10, 0, 0, 1], by decide,
      by decide⟩]
  rest := []
  fits := ⟨rfl, rfl, by decide, by simp; omega⟩

theorem parseDnsReply_selects_address :
    (addressReply [] (by decide)).Selects .unspec :=
  parseDnsReply_selects (addressReply [] (by decide)) .unspec
    (by simp [addressReply, DnsName.Unmixed])
    (by simp [addressReply, DnsName.Unmixed, DnsRecord.Wanted])

/- `a` is an alias of `b`. -/
def aliasReply : DnsMessage :=
  addressReply [⟨⟨[[97]], none, by decide, by simp⟩, 5, 1, [0, 0, 0, 9], [1, 98, 0], by decide,
    by decide⟩] (by decide)

theorem not_parseDnsReply_selects :
    ¬ ∀ (m : DnsMessage) (family : DnsFamily), m.Selects family := by
  intro h
  have hAlias : parseDnsReply aliasReply.encode .unspec = .ok [10, 0, 0, 1] := h aliasReply .unspec
  exact absurd hAlias (by decide)

end Riot
