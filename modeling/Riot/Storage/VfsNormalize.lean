import Riot.Core.Thread

/-
  The normal form of a path, `vfs_normalize_path`.

  A path is a list of its characters, without the 0 at its end.
  A component that begins with a dot is copied without this dot.
-/

----
-- Components
----

namespace Riot

/- Between slashes; empty components are dropped. -/
def pathComponents
    (path : List Char) : List (List Char) :=
  (path.splitOn '/').filter (· ≠ [])

/- The components that are left, if `..` always has one to remove. -/
def reduceComponents
    (left : List (List Char)) : List (List Char) → Option (List (List Char))
| [] => some left
| c :: cs =>
  if c = ['.'] then
    reduceComponents left cs
  else if c = ['.', '.'] then
    if left = [] then none else reduceComponents left.dropLast cs
  else
    reduceComponents (left ++ [c]) cs

----
-- Operations
----

def enametoolong : Int := 36

/- `path[0] == '/' || path[0] == '\0'` -/
def endsComponent
    (path : List Char) : Bool :=
  path.head?.all (· = '/')

/- `while (len > 0 && buf[--len] != '/') {}` -/
def dropComponent
    (buf : List Char) : List Char :=
  (buf.reverse.dropWhile (· ≠ '/')).tail.reverse

/- The loop; every turn but the last one gets further in the path. -/
def vfsNormalizeLoop
    (buflen : Nat) :
    Nat → List Char → List Char → Int → Option (Except Int (List Char × Int))
| 0, _, _, _ => none
| turns + 1, path, buf, npathcomp =>
  if path = [] then
    some (.ok (buf, npathcomp))
  else
    let path := path.dropWhile (· = '/')
    let dot := path.head? = some '.'
    let path := if dot then path.tail else path
    if dot ∧ endsComponent path then
      vfsNormalizeLoop buflen turns path buf npathcomp
    else if dot ∧ path.head? = some '.' ∧ endsComponent path.tail then
      if buf = [] then
        some (.error (-einval))
      else
        vfsNormalizeLoop buflen turns path.tail (dropComponent buf) (npathcomp - 1)
    else
      let buf := buf ++ ['/']
      if buflen ≤ buf.length then
        some (.error (-enametoolong))
      else if path = [] then
        some (.ok (buf, npathcomp))
      else
        let buf := buf ++ (path.takeWhile (· ≠ '/')).take (buflen - buf.length)
        if buflen ≤ buf.length then
          some (.error (-enametoolong))
        else
          vfsNormalizeLoop buflen turns (path.dropWhile (· ≠ '/')) buf (npathcomp + 1)

/- The text in the buffer, and the number that is returned. -/
def vfsNormalizePath
    (path : List Char) (buflen : Nat) : Option (Except Int (List Char × Int)) :=
  if buflen = 0 then
    some (.error (-enametoolong))
  else
    (vfsNormalizeLoop buflen (path.length + 1) path [] 0).map
      (Except.map (fun res => if res.1.length = 1 then (res.1, 1) else res))

----
-- Paths and Components
----

variable {path name rest buf : List Char} {left cs final : List (List Char)}

/- What is stored of a component. -/
def storedComponent
    (c : List Char) : List Char :=
  if c.head? = some '.' then c.tail else c

def joinComponents
    (cs : List (List Char)) : List Char :=
  cs.flatMap ('/' :: ·)

/- A slash at the end of the path is kept. -/
def trailingSlash
    (path : List Char) : List Char :=
  if path.getLast? = some '/' then ['/'] else []

theorem pathComponents_slash :
    pathComponents ('/' :: path) = pathComponents path := by
  simp [pathComponents, List.splitOn_cons_eq_if_modifyHead]

theorem pathComponents_slashes
    {n : Nat} :
    pathComponents (List.replicate n '/' ++ path) = pathComponents path := by
  induction n with
  | zero => rfl
  | succ n ih => rw [List.replicate_succ, List.cons_append, pathComponents_slash, ih]

theorem pathComponents_name
    (hNe : name ≠ []) (hName : '/' ∉ name) (hEnd : endsComponent rest = true) :
    pathComponents (name ++ rest) = name :: pathComponents rest := by
  cases rest with
  | nil => simp [pathComponents, List.splitOn_eq_singleton hName, hNe]
  | cons a rest =>
    cases (by simpa [endsComponent] using hEnd : a = '/')
    rw [pathComponents_slash]
    simp [pathComponents, List.splitOn_append_cons_self_of_not_mem hName, hNe]

theorem trailingSlash_append
    (hNe : name ≠ []) (hName : '/' ∉ name) :
    trailingSlash (buf ++ (name ++ rest)) = trailingSlash rest := by
  have hLast : name.getLast? ≠ some '/' := fun h => hName (List.mem_of_getLast? h)
  rcases List.eq_nil_or_concat rest with rfl | ⟨rest, a, rfl⟩
  · simp [trailingSlash, List.getLast?_append, hLast, hNe]
  · simp [trailingSlash]

/- A path is slashes, a component without any, and the rest. -/
theorem path_split
    (path : List Char) :
    ∃ n name rest, path = List.replicate n '/' ++ (name ++ rest) ∧ '/' ∉ name ∧
      endsComponent rest = true ∧ (name = [] → rest = []) := by
  induction path with
  | nil => exact ⟨0, [], [], rfl, by simp, rfl, fun _ => rfl⟩
  | cons a path ih =>
    rcases ih with ⟨n, name, rest, rfl, hName, hEnd, hNil⟩
    by_cases hSlash : a = '/'
    · exact ⟨n + 1, name, rest, by simp [hSlash, List.replicate_succ], hName, hEnd, hNil⟩
    · have hNot := Ne.symm hSlash
      cases n with
      | zero => exact ⟨0, a :: name, rest, rfl, by simp [hNot, hName], hEnd, by simp⟩
      | succ n => exact ⟨0, [a], _, rfl, by simp [hNot], rfl, by simp⟩

----
-- One Turn
----

/- The path of a turn without the slashes before its component. -/
theorem dropWhile_slashes
    {n : Nat} (hNe : name ≠ []) (hName : '/' ∉ name) :
    (List.replicate n '/' ++ (name ++ rest)).dropWhile (· = '/') = name ++ rest := by
  rw [List.dropWhile_append_of_pos (by simp)]
  rcases List.exists_cons_of_ne_nil hNe with ⟨a, name, rfl⟩
  rw [List.mem_cons, not_or] at hName
  exact List.dropWhile_cons_of_neg (by simpa using Ne.symm hName.1)

theorem takeWhile_name
    (hName : '/' ∉ name) (hEnd : endsComponent rest = true) :
    (name ++ rest).takeWhile (· ≠ '/') = name ∧ (name ++ rest).dropWhile (· ≠ '/') = rest := by
  have hPos : ∀ a ∈ name, decide (a ≠ '/') = true := fun a h =>
    decide_eq_true (fun hEq => hName (hEq ▸ h))
  rw [List.takeWhile_append_of_pos hPos, List.dropWhile_append_of_pos hPos]
  cases rest with
  | nil => simp
  | cons a rest =>
    cases (by simpa [endsComponent] using hEnd : a = '/')
    simp

theorem endsComponent_name
    (hNe : name ≠ []) (hName : '/' ∉ name) :
    endsComponent (name ++ rest) = false := by
  rcases List.exists_cons_of_ne_nil hNe with ⟨a, name, rfl⟩
  simp_all [endsComponent, eq_comm]

theorem dropComponent_append
    (hName : '/' ∉ name) :
    dropComponent (buf ++ '/' :: name) = buf := by
  have hPos : ∀ a ∈ name.reverse, decide (a ≠ '/') = true := fun a h =>
    decide_eq_true (fun hEq => hName (hEq ▸ List.mem_reverse.mp h))
  rw [dropComponent, List.reverse_append, List.reverse_cons, List.append_assoc,
    List.dropWhile_append_of_pos hPos]
  simp

/- What a turn does with a component. -/
theorem vfsNormalizeLoop_turn
    {n turns buflen : Nat} {k : Int}
    (hPath : path = List.replicate n '/' ++ (name ++ rest)) (hNe : name ≠ [])
    (hName : '/' ∉ name) (hEnd : endsComponent rest = true)
    (hRoom : buf.length + name.length + 1 < buflen) :
    vfsNormalizeLoop buflen (turns + 1) path buf k =
      if name = ['.'] then vfsNormalizeLoop buflen turns rest buf k
      else if name = ['.', '.'] then if buf = [] then some (.error (-einval))
        else vfsNormalizeLoop buflen turns rest (dropComponent buf) (k - 1)
      else vfsNormalizeLoop buflen turns rest (buf ++ '/' :: storedComponent name) (k + 1) := by
  have hPathNe : path ≠ [] := by
    simp [hPath, hNe]
  -- a name that is stored is copied as a whole
  have hCopy : ∀ c, c ≠ [] → '/' ∉ c → c.length ≤ name.length →
      ¬ buflen ≤ (buf ++ ['/']).length ∧ c ++ rest ≠ [] ∧
        buf ++ ['/'] ++ ((c ++ rest).takeWhile (· ≠ '/')).take (buflen - (buf ++ ['/']).length) =
          buf ++ '/' :: c ∧
          ¬ buflen ≤ (buf ++ '/' :: c).length ∧ (c ++ rest).dropWhile (· ≠ '/') = rest := by
    intro c hC hSlash hLe
    rw [(takeWhile_name hSlash hEnd).1, (takeWhile_name hSlash hEnd).2,
      List.take_of_length_le (by simp; omega)]
    simp [hC]
    omega
  rw [vfsNormalizeLoop, if_neg hPathNe, hPath]
  simp only [dropWhile_slashes hNe hName]
  rcases List.exists_cons_of_ne_nil hNe with ⟨a, c, rfl⟩
  by_cases hDot : a = '.'
  · subst hDot
    by_cases hC : c = []
    · simp [hC, hEnd]
    have hSlash : '/' ∉ c := fun h => hName (List.mem_cons_of_mem _ h)
    simp only [List.cons_append, List.head?_cons, if_true, List.tail_cons, true_and]
    rw [endsComponent_name hC hSlash]
    by_cases hUp : c = ['.']
    · simp [hUp, hEnd]
    have hNot : ¬ ((c ++ rest).head? = some '.' ∧ endsComponent (c ++ rest).tail = true) := by
      rcases List.exists_cons_of_ne_nil hC with ⟨b, d, rfl⟩
      rintro ⟨hB, hD⟩
      cases Option.some.inj hB
      have hNe' : d ≠ [] := fun h => hUp (by rw [h])
      rw [List.cons_append, List.tail_cons,
        endsComponent_name hNe' (fun h => hSlash (List.mem_cons_of_mem _ h))] at hD
      cases hD
    rcases hCopy c hC hSlash (by simp) with ⟨h₁, h₂, h₃, h₄, h₅⟩
    have hStored : storedComponent ('.' :: c) = c := rfl
    simp only [Bool.false_eq_true, if_false, if_neg hNot, if_neg h₁, if_neg h₂, h₃, if_neg h₄, h₅,
      hStored, List.cons.injEq, true_and, hC, hUp]
  · have hStored : storedComponent (a :: c) = a :: c := by
      simp [storedComponent, hDot]
    rcases hCopy (a :: c) hNe hName le_rfl with ⟨h₁, h₂, h₃, h₄, h₅⟩
    have hHead : ¬ (a :: c ++ rest).head? = some '.' := by
      simpa using hDot
    simp only [hHead, false_and, if_false, if_neg h₁, if_neg h₂, h₃, if_neg h₄, h₅, hStored,
      List.cons.injEq, hDot]

----
-- Normal Forms
----

theorem storedComponent_spec
    (hName : '/' ∉ name) :
    '/' ∉ storedComponent name ∧ (storedComponent name).length ≤ name.length := by
  unfold storedComponent
  split
  · exact ⟨fun h => hName (List.mem_of_mem_tail h), by simp⟩
  · exact ⟨hName, le_rfl⟩

/- The path is reduced, and what is stored of its components joined. -/
theorem vfsNormalizeLoop_spec
    {turns buflen : Nat} {k : Int} (hTurns : path.length < turns)
    (hSlash : ∀ c ∈ left, '/' ∉ c)
    (hBuf : buf = joinComponents (left.map storedComponent))
    (hRoom : buf.length + path.length + (if endsComponent path then 0 else 1) < buflen) :
    match reduceComponents left (pathComponents path) with
    | none => vfsNormalizeLoop buflen turns path buf k = some (.error (-einval))
    | some final => ∃ n, vfsNormalizeLoop buflen turns path buf k =
        some (.ok (joinComponents (final.map storedComponent) ++ trailingSlash path, n)) := by
  induction turns generalizing path left buf k with
  | zero => omega
  | succ turns ih =>
    rcases path_split path with ⟨n, name, rest, hPath, hName, hEnd, hNil⟩
    by_cases hNe : name = []
    · -- only slashes are left
      rw [hNe, hNil hNe, List.append_nil, List.append_nil] at hPath
      have hNone : pathComponents path = [] := by
        rw [hPath, ← List.append_nil (List.replicate n '/'), pathComponents_slashes]
        rfl
      rw [hNone]
      cases n with
      | zero => simp [reduceComponents, vfsNormalizeLoop, hPath, trailingSlash, hBuf]
      | succ n =>
        have hMore : ¬ buflen ≤ buf.length + 1 := by
          simp [hPath, endsComponent, List.replicate_succ] at hRoom
          omega
        refine ⟨k, ?_⟩
        have hDrop : (List.replicate (n + 1) '/').dropWhile (· = '/') = [] := by
          simp
        have hLast : trailingSlash path = ['/'] := by
          simp [trailingSlash, hPath, List.getLast?_replicate]
        rw [hLast, ← hBuf, vfsNormalizeLoop, if_neg (by simp [hPath]), hPath]
        simp [hDrop, hMore]
    · have hLong : name.length + rest.length + 1 ≤
          path.length + if endsComponent path then 0 else 1 := by
        rw [hPath]
        cases n with
        | zero => simp [endsComponent_name hNe hName]
        | succ n =>
          simp
          omega
      have hPos := List.length_pos_iff.mpr hNe
      have hShort : rest.length < turns := by
        simp [hPath] at hTurns
        omega
      have hComponents : pathComponents path = name :: pathComponents rest := by
        rw [hPath, pathComponents_slashes, pathComponents_name hNe hName hEnd]
      have hTrailing : trailingSlash path = trailingSlash rest := by
        rw [hPath]
        exact trailingSlash_append hNe hName
      rw [vfsNormalizeLoop_turn hPath hNe hName hEnd (by omega), hComponents, hTrailing,
        reduceComponents]
      by_cases hDot : name = ['.']
      · rw [if_pos hDot, if_pos hDot]
        exact ih hShort hSlash hBuf (by rw [hEnd]; simp; omega)
      rw [if_neg hDot, if_neg hDot]
      by_cases hUp : name = ['.', '.']
      · rw [if_pos hUp, if_pos hUp]
        rcases List.eq_nil_or_concat' left with rfl | ⟨left, c, rfl⟩
        · simp [hBuf, joinComponents]
        · have hStored := (storedComponent_spec (hSlash c (by simp))).1
          have hJoin : buf = joinComponents (left.map storedComponent) ++
              '/' :: storedComponent c := by
            simp [hBuf, joinComponents]
          rw [if_neg (by simp), if_neg (by simp [hJoin]), hJoin, dropComponent_append hStored,
            List.dropLast_concat]
          refine ih hShort (fun a h => hSlash a (List.mem_append_left _ h)) rfl ?_
          rw [hEnd]
          simp [hJoin] at hRoom ⊢
          omega
      · rw [if_neg hUp, if_neg hUp]
        have hStored := (storedComponent_spec hName).2
        refine ih hShort ?_ (by simp [hBuf, joinComponents]) ?_
        · simpa [or_imp, forall_and, hName] using hSlash
        · rw [hEnd]
          simp
          omega

theorem vfsNormalizePath_eq
    {buflen : Nat} (hFits : path.length + 2 ≤ buflen) :
    match reduceComponents [] (pathComponents path) with
    | none => vfsNormalizePath path buflen = some (.error (-einval))
    | some final => ∃ n, vfsNormalizePath path buflen =
        some (.ok (joinComponents (final.map storedComponent) ++ trailingSlash path, n)) := by
  have hLoop := @vfsNormalizeLoop_spec path [] [] (path.length + 1) buflen 0 (by omega) (by simp)
    rfl (by simp only [List.length_nil]; split <;> omega)
  unfold vfsNormalizePath
  rw [if_neg (by omega)]
  cases hReduce : reduceComponents [] (pathComponents path) with
  | none =>
    rw [hReduce] at hLoop
    simp only [hLoop]
    rfl
  | some final =>
    rw [hReduce] at hLoop
    rcases hLoop with ⟨n, hLoop⟩
    by_cases hRoot : (joinComponents (final.map storedComponent) ++ trailingSlash path).length = 1
    · exact ⟨1, by simp [hLoop, Except.map, -List.length_append, hRoot]⟩
    · exact ⟨n, by simp [hLoop, Except.map, -List.length_append, hRoot]⟩

/- What is left are components of the path, without special ones. -/
theorem reduceComponents_mem
    (hReduce : reduceComponents left cs = some final) :
    ∀ c ∈ final, c ∈ left ∨ c ∈ cs ∧ c ≠ ['.'] := by
  induction cs generalizing left with
  | nil =>
    cases hReduce
    exact fun c h => .inl h
  | cons a cs ih =>
    intro c hC
    rw [reduceComponents] at hReduce
    split_ifs at hReduce with hDot hUp hLeft
    · exact (ih hReduce c hC).imp_right (And.imp_left (List.mem_cons_of_mem _))
    · exact (ih hReduce c hC).imp List.mem_of_mem_dropLast (And.imp_left (List.mem_cons_of_mem _))
    · rcases ih hReduce c hC with h | h
      · rcases List.mem_append.mp h with h | h
        · exact .inl h
        · cases List.mem_singleton.mp h
          exact .inr ⟨List.mem_cons_self .., hDot⟩
      · exact .inr (h.imp_left (List.mem_cons_of_mem _))

/- Without special components all of them are left. -/
theorem reduceComponents_self
    (hDots : ∀ c ∈ cs, c.head? ≠ some '.') :
    reduceComponents left cs = some (left ++ cs) := by
  induction cs generalizing left with
  | nil => simp [reduceComponents]
  | cons a cs ih =>
    have hA := hDots a (List.mem_cons_self ..)
    have hNot : ∀ d, a ≠ '.' :: d := by
      rintro d rfl
      exact hA rfl
    rw [reduceComponents, if_neg (hNot _), if_neg (hNot _),
      ih (fun c h => hDots c (List.mem_cons_of_mem _ h)), List.append_assoc, List.singleton_append]

theorem mem_pathComponents
    {c : List Char} (hMem : c ∈ pathComponents path) :
    c ≠ [] ∧ '/' ∉ c := by
  simp only [pathComponents, List.mem_filter, decide_eq_true_eq] at hMem
  refine ⟨hMem.2, ?_⟩
  have hSplit : ∀ c ∈ path.splitOn '/', '/' ∉ c := by
    clear hMem
    induction path with
    | nil => simp
    | cons a path ih =>
      rw [List.splitOn_cons_eq_if_modifyHead]
      by_cases hSlash : a = '/'
      · simpa [hSlash] using ih
      · rw [if_neg (by simpa using hSlash)]
        cases hRest : path.splitOn '/' with
        | nil => simp
        | cons b cs =>
          rw [hRest] at ih
          simpa [Ne.symm hSlash] using ih
  exact hSplit c hMem.1

/- A joined text has the components and the end it is made of. -/
theorem joinComponents_spec
    (hNames : ∀ c ∈ cs, c ≠ [] ∧ '/' ∉ c) :
    pathComponents (joinComponents cs ++ trailingSlash path) = cs ∧
      trailingSlash (joinComponents cs ++ trailingSlash path) = trailingSlash path := by
  have hTail : trailingSlash path = [] ∨ trailingSlash path = ['/'] := by
    unfold trailingSlash
    split <;> simp
  constructor
  · induction cs with
    | nil => rcases hTail with h | h <;> rw [h] <;> rfl
    | cons c cs ih =>
      have hC := hNames c (List.mem_cons_self ..)
      have hEnd : endsComponent (joinComponents cs ++ trailingSlash path) = true := by
        cases cs with
        | nil => rcases hTail with h | h <;> rw [h] <;> rfl
        | cons a cs => rfl
      rw [joinComponents, List.flatMap_cons, ← joinComponents, List.append_assoc, List.cons_append,
        pathComponents_slash, pathComponents_name hC.1 hC.2 hEnd,
        ih (fun a h => hNames a (List.mem_cons_of_mem _ h))]
  · rcases hTail with h | h
    · rw [h, List.append_nil]
      rcases List.eq_nil_or_concat' cs with rfl | ⟨cs, c, rfl⟩
      · rfl
      · have hC := hNames c (by simp)
        have hLast := @trailingSlash_append c [] (joinComponents cs ++ ['/']) hC.1 hC.2
        simpa [joinComponents, trailingSlash] using hLast
    · rw [h]
      simp [trailingSlash]

/-
  A path is refused exactly if `..` has nothing to remove. Else
  the result has the components that are left, and is normal.
-/
def VfsNormalizes
    (path : List Char) (buflen : Nat) : Prop :=
  match reduceComponents [] (pathComponents path) with
  | none => ∃ err, vfsNormalizePath path buflen = some (.error err)
  | some final => ∃ buf n, vfsNormalizePath path buflen = some (.ok (buf, n)) ∧
      pathComponents buf = final ∧
        ∀ buflen', buf.length + 2 ≤ buflen' →
          ∃ n', vfsNormalizePath buf buflen' = some (.ok (buf, n'))

/- A path is normalised if and only if no name that is left begins with a dot. -/
theorem vfsNormalizePath_normalizes_iff
    (path : List Char) (buflen : Nat) (hFits : path.length + 2 ≤ buflen) :
    VfsNormalizes path buflen ↔
      ∀ final, reduceComponents [] (pathComponents path) = some final →
        ∀ c ∈ final, c.head? ≠ some '.' := by
  have hEq := vfsNormalizePath_eq hFits
  unfold VfsNormalizes
  cases hReduce : reduceComponents [] (pathComponents path) with
  | none =>
    rw [hReduce] at hEq
    simpa using ⟨_, hEq⟩
  | some final =>
    rw [hReduce] at hEq
    rcases hEq with ⟨n, hEq⟩
    have hStored : ∀ c ∈ final.map storedComponent, c ≠ [] ∧ '/' ∉ c := by
      intro a hA
      rcases List.mem_map.mp hA with ⟨c, hC, rfl⟩
      have hMem := (reduceComponents_mem hReduce c hC).resolve_left List.not_mem_nil
      have hName := mem_pathComponents hMem.1
      refine ⟨fun h => ?_, (storedComponent_spec hName.2).1⟩
      unfold storedComponent at h
      split_ifs at h with hHead
      · rcases List.head?_eq_some_iff.mp hHead with ⟨t, rfl⟩
        cases h
        exact hMem.2 rfl
      · exact hName.1 h
    have hJoin := @joinComponents_spec path _ hStored
    constructor
    · rintro ⟨buf, n', hRun, hComponents, -⟩ final' hFinal c hC hHead
      cases hFinal
      rw [hEq] at hRun
      cases hRun
      rw [hJoin.1] at hComponents
      have hSame := List.map_inj_left.mp (hComponents.trans (List.map_id final).symm) c hC
      rcases List.head?_eq_some_iff.mp hHead with ⟨t, rfl⟩
      exact absurd (congrArg List.length hSame) (by simp [storedComponent])
    · intro hDots
      have hDots := hDots final rfl
      have hMap : final.map storedComponent = final :=
        (List.map_congr_left (fun c h => if_neg (hDots c h))).trans (List.map_id final)
      rw [hMap] at hEq hJoin
      refine ⟨_, n, hEq, hJoin.1, fun buflen' hFits' => ?_⟩
      have hAgain := vfsNormalizePath_eq hFits'
      rw [hJoin.1, reduceComponents_self hDots, hJoin.2, List.nil_append] at hAgain
      simpa only [hMap] using hAgain

/- `a/../b/.` -/
theorem vfsNormalizePath_normalizes_iff_up :
    VfsNormalizes ['a', '/', '.', '.', '/', 'b', '/', '.'] 10 ↔
      ∀ final, reduceComponents [] (pathComponents ['a', '/', '.', '.', '/', 'b', '/', '.']) =
        some final → ∀ c ∈ final, c.head? ≠ some '.' :=
  vfsNormalizePath_normalizes_iff _ 10 (by decide)

/- `/.b` becomes `/b`. -/
theorem not_vfsNormalizePath_normalizes :
    ¬ ∀ path buflen, path.length + 2 ≤ buflen → VfsNormalizes path buflen := by
  intro h
  rcases h ['/', '.', 'b'] 5 (by decide) with ⟨buf, n, hRun, hComponents, -⟩
  cases hRun
  exact absurd hComponents (by decide)

end Riot
