import WebServer.V3.Net.Request

/-
  Header blocks that arrive in pieces in version 3.0.

  Between two calls `parseHeaders` keeps its state and the
  bytes from the last line end it stored. This file says in
  which states a call can stop short of the blank line, and
  what the next call makes of each.

  Key definitions include:
    * `blockBytes`
    * `HeaderScan.Follows`
    * `Unfinished`
    * `HttpData.ReadTo`
    * `Tainted`

  Key theorems include:
    * `block_of_prefix`
    * `HttpData.parseHeadersBy_of_start`
    * `HttpData.parseHeadersBy_of_lf`
    * `HttpData.parseHeadersBy_of_endCr`
-/

------------------------------------------------------------
-- Blocks Of Lines
------------------------------------------------------------

namespace WebServer

namespace V3

/- Lines with their ends, and the blank line after them. -/
def blockBytes
    (contents : List Bytes) : Bytes :=
  contents.flatMap (· ++ [13, 10]) ++ [13, 10]

theorem blockBytes_cons
    (content : Bytes)
    (contents : List Bytes) :
    blockBytes (content :: contents) =
      content ++ 13 :: 10 :: blockBytes contents := by
  simp [blockBytes]

theorem headerBytes_eq
    (lines : List HeaderLine) :
    headerBytes lines =
      blockBytes (lines.map HeaderLine.content) := by
  unfold headerBytes blockBytes
  rw [List.flatMap_map]
  rfl

theorem Request.bytes_eq
    (r : Request) :
    r.bytes =
      blockBytes
        (r.line :: r.lines.map HeaderLine.content) := by
  rw [blockBytes_cons, ← headerBytes_eq]
  rfl

/- A CR that is not in front of `content` is behind it. -/
theorem prefix_append_split
    {content u x y : Bytes}
    (hPlain : 13 ∉ content)
    (hPrefix : u ++ 13 :: x <+: content ++ y) :
    ∃ v, u = content ++ v ∧ v ++ 13 :: x <+: y := by
  induction content generalizing u with
  | nil => exact ⟨u, rfl, hPrefix⟩
  | cons b content ih =>
      rw [List.mem_cons, not_or] at hPlain
      cases u with
      | nil =>
          have hHead := (List.cons_prefix_cons.mp hPrefix).1
          exact absurd hHead hPlain.1
      | cons c u =>
          rcases List.cons_prefix_cons.mp hPrefix with
            ⟨rfl, hTail⟩
          rcases ih hPlain.2 hTail with ⟨v, rfl, hRest⟩
          exact ⟨v, rfl, hRest⟩

/-
  CR, LF and CR in a row stand at the end of a block only,
  by induction on its lines.
-/
theorem block_of_prefix
    {contents : List Bytes}
    {u : Bytes}
    (hPlain :
      ∀ content ∈ contents, content ≠ [] ∧ 13 ∉ content)
    (hNonempty : contents ≠ [])
    (hPrefix : u ++ [13, 10, 13] <+: blockBytes contents) :
    u ++ [13, 10, 13, 10] = blockBytes contents := by
  induction contents generalizing u with
  | nil => exact absurd rfl hNonempty
  | cons content contents ih =>
      have hContent := hPlain content List.mem_cons_self
      have hOthers := fun other hMem =>
        hPlain other (List.mem_cons_of_mem _ hMem)
      rw [blockBytes_cons] at hPrefix ⊢
      rcases prefix_append_split hContent.2 hPrefix with
        ⟨v, rfl, hRest⟩
      rw [List.append_assoc]
      congr 1
      match v with
      | [] =>
          have hNext : [13] <+: blockBytes contents := by
            simpa using hRest
          cases contents with
          | nil => rfl
          | cons other contents =>
              -- the next line does not begin with CR
              have hOther := hOthers other List.mem_cons_self
              rw [blockBytes_cons] at hNext
              rcases List.exists_cons_of_ne_nil hOther.1 with
                ⟨b, more, rfl⟩
              have hHead :=
                (List.cons_prefix_cons.mp hNext).1
              exact absurd (by simp [hHead]) hOther.2
      | [c] =>
          have hTwo :=
            (List.cons_prefix_cons.mp
              (List.cons_prefix_cons.mp hRest).2).1
          cases hTwo
      | c :: d :: v =>
          rcases List.cons_prefix_cons.mp hRest with
            ⟨rfl, hTail⟩
          rcases List.cons_prefix_cons.mp hTail with
            ⟨rfl, hLast⟩
          cases contents with
          | nil =>
              have hLen := hLast.length_le
              simp [blockBytes] at hLen
          | cons other contents =>
              have hBlock := ih hOthers (by simp) hLast
              simpa using hBlock

end V3

end WebServer

------------------------------------------------------------
-- What Was Read Last
------------------------------------------------------------

namespace WebServer

namespace V3

open StdString

/-
  What the bytes read so far end with, by state. A call may
  also begin in `H_LF`, with the LF of the last line in
  front of it.
-/
def HeaderScan.Follows
    (str : Bytes)
    (i : Nat)
    (scan : HeaderScan) : Prop :=
  match scan.hState with
  | .start => ∀ b ∈ str.take i, b = 13 ∨ b = 10
  | .cr => [13] <:+ str.take i
  | .lf =>
      (i = 0 ∧ str.head? = some 10) ∨
        ([13, 10] <:+ str.take i ∧
          scan.vars.nowReadLineBegin + 1 = i)
  | .endCr =>
      [13, 10, 13] <:+ str.take i ∧
        scan.vars.nowReadLineBegin + 2 = i
  | .endLf => [13, 10, 13, 10] <:+ str.take i
  | _ => True

theorem suffix_concat
    {ending bytes : Bytes}
    (hEnding : ending <:+ bytes)
    (c : Byte) :
    ending ++ [c] <:+ bytes ++ [c] := by
  rcases hEnding with ⟨front, rfl⟩
  exact ⟨front, by simp⟩

theorem HeaderScan.Follows.next
    {str : Bytes}
    {scan : HeaderScan}
    {c : Byte}
    {i : Nat}
    (h : scan.Follows str i)
    (hAt : str[i]? = some c) :
    match scan.next .exact str c i with
    | .ok (.more scan') => scan'.Follows str (i + 1)
    | .ok (.done _) => [13, 10, 13, 10] <:+: str
    | _ => True := by
  have hTake : str.take (i + 1) = str.take i ++ [c] := by
    rw [List.take_add_one, hAt]
    rfl
  rcases scan with ⟨hState, headers, vars⟩
  unfold HeaderScan.Follows at h ⊢
  cases hState <;>
    simp only [HeaderScan.next, Ints.exact_sub_bind,
      HeaderScan.setState] at h ⊢
  case start =>
      split_ifs with hEnd
      · simp only [hTake, List.mem_append,
          List.mem_singleton]
        rintro b (hMem | rfl)
        · exact h b hMem
        · simpa [isLf, isCr, or_comm] using hEnd
      · trivial
  case key =>
      split_ifs <;> trivial
  case colon =>
      split_ifs <;> trivial
  case value =>
      split_ifs with hCr
      · trivial
      · rw [isCr, beq_iff_eq] at hCr
        simp only [hTake, hCr]
        exact List.suffix_append _ _
      · trivial
      · trivial
  case cr =>
      split_ifs with hLf
      · rw [isLf, beq_iff_eq] at hLf
        cases range str vars.keyStart vars.keyEnd with
        | error f => trivial
        | ok key =>
            cases range str vars.valueStart vars.valueEnd with
            | error f => trivial
            | ok value =>
                simp only [bind, Except.bind, hTake, hLf]
                exact .inr ⟨suffix_concat h 10, by simp⟩
      · trivial
  case lf =>
      split_ifs with hCr
      · rw [isCr, beq_iff_eq] at hCr
        rcases h with ⟨rfl, hHead⟩ | ⟨hEnding, hBegin⟩
        · rw [← List.head?_eq_getElem?, hHead] at hAt
          simp [hCr] at hAt
        · simp only [hTake, hCr]
          exact ⟨suffix_concat hEnding 13, by omega⟩
      · trivial
  case endCr =>
      split_ifs with hLf
      · rw [isLf, beq_iff_eq] at hLf
        simp only [hTake, hLf]
        exact suffix_concat h.1 10
      · trivial
  case endLf =>
      exact h.isInfix.trans (List.take_prefix i str).isInfix

/-
  A call that stopped short of the blank line, after these
  bytes. It left off in the middle of a line, after the end
  of a line, or after the CR of the blank line.
-/
def Unfinished
    (bytes : Bytes)
    (d : HttpData) : Prop :=
  d.hState.inLine = true ∨
    (d.hState = .lf ∧ d.inBuffer = [10]) ∨
    (d.hState = .endCr ∧
      d.inBuffer = [10, 13] ∧ [13, 10, 13] <:+ bytes)

/- Some header has a name that begins with LF. -/
def Tainted
    (headers : Headers) : Prop :=
  ∃ key value, headers (10 :: key) = some value

end V3

end WebServer

------------------------------------------------------------
-- Calls That Stop Short
------------------------------------------------------------

namespace WebServer

namespace V3

open StdString

/- No turn goes back to `H_START`. -/
theorem HeaderScan.next_ne_start
    {str : Bytes}
    {scan scan' : HeaderScan}
    {c : Byte}
    {i : Nat}
    (h : scan.next .exact str c i = .ok (.more scan'))
    (hStart : scan'.hState = .start) :
    scan.hState = .start := by
  rcases scan with ⟨hState, headers, vars⟩
  cases hState <;>
    simp only [HeaderScan.next, Ints.exact_sub_bind,
      HeaderScan.setState] at h ⊢
  case key =>
      split_ifs at h <;> cases h <;> cases hStart
  case colon =>
      split_ifs at h
      · cases h
        cases hStart
      · cases h
  case spacesAfterColon =>
      cases h
      cases hStart
  case value =>
      split_ifs at h <;> cases h <;> cases hStart
  case cr =>
      split_ifs at h
      · cases hKey : range str vars.keyStart vars.keyEnd with
        | error f =>
            rw [hKey] at h
            cases h
        | ok key =>
            cases hValue :
                range str vars.valueStart vars.valueEnd with
            | error f =>
                rw [hKey, hValue] at h
                cases h
            | ok value =>
                rw [hKey, hValue] at h
                cases h
                cases hStart
      · cases h
  case lf =>
      split_ifs at h <;> cases h <;> cases hStart
  case endCr =>
      split_ifs at h
      · cases h
        cases hStart
      · cases h
  case endLf =>
      cases h

/- What is kept from the last line end on. -/
theorem drop_of_suffix
    {str front ending : Bytes}
    {k : Nat}
    (hSuffix : front ++ ending <:+ str)
    (hLen : k + ending.length = str.length) :
    str.drop k = ending := by
  rcases hSuffix with ⟨before, rfl⟩
  simp only [List.length_append] at hLen
  rw [← List.append_assoc,
    show k = (before ++ front).length by
      rw [List.length_append]
      omega,
    List.drop_left]

/-
  What a call of `parseHeaders` has read: short of the blank
  line, or with the blank line.
-/
def HttpData.ReadTo
    (d : HttpData)
    (flag : HeaderState)
    (d' : HttpData) : Prop :=
  match flag with
  | .again => Unfinished d.inBuffer d'
  | .success => [13, 10, 13, 10] <:+: d.inBuffer
  | .error => True

/- How the loop of such a call ends. -/
theorem HttpData.scanHeaders_of_follows
    {d : HttpData}
    (hState : d.hState.inLine = false)
    (hInit :
      (⟨d.hState, d.headers, .init⟩ : HeaderScan).Follows
        d.inBuffer 0) :
    match d.scanHeaders .exact with
    | .ok how =>
        how.Meets
          (fun i scan =>
            (i = d.inBuffer.length ∧
                scan.Follows d.inBuffer i ∧
                (scan.hState = .start →
                  d.hState = .start)) ∨
              (scan.hState = .endLf ∧
                [13, 10, 13, 10] <:+: d.inBuffer))
          fun _ => True
    | .error _ => True := by
  have hPlace :
      (⟨d.hState, d.headers, .init⟩ : HeaderScan).InPlace
        0 := by
    unfold HeaderScan.InPlace
    refine ⟨Int.le_refl 0, ?_⟩
    cases hCase : d.hState <;>
      simp_all [ParseState.inLine]
  apply
    d.scanHeaders_rule .exact
      (I := fun i scan =>
        i ≤ d.inBuffer.length ∧
          scan.InPlace i ∧
          scan.Follows d.inBuffer i ∧
          (scan.hState = .start → d.hState = .start))
      (F := fun _ => True)
  · intro scan hI
    exact .inl ⟨rfl, hI.2.2⟩
  · intro i c scan hI hAt
    have hSmall : i < d.inBuffer.length :=
      (List.getElem?_eq_some_iff.mp hAt).1
    have hNext := hI.2.1.next hI.1 c
    have hFollows := hI.2.2.1.next hAt
    cases hCase : scan.next .exact d.inBuffer c i with
    | error f => trivial
    | ok turn =>
        rw [hCase] at hNext hFollows
        cases turn with
        | more scan' =>
            exact
              ⟨hSmall, hNext, hFollows, fun hStart =>
                hI.2.2.2
                  (HeaderScan.next_ne_start hCase hStart)⟩
        | done scan' => exact .inr ⟨hNext.1, hFollows⟩
        | error scan' => trivial
  · exact ⟨Nat.zero_le _, hPlace, hInit, id⟩

/- A loop that ran out of bytes leaves the block unfinished. -/
theorem HttpData.unfinished_of_follows
    {d : HttpData}
    {scan : HeaderScan}
    (hSome : d.inBuffer ≠ [])
    (hText : scan.hState = .start →
      ∃ b ∈ d.inBuffer, b ≠ 13 ∧ b ≠ 10)
    (hFollows : scan.Follows d.inBuffer d.inBuffer.length)
    (hEnd : scan.hState ≠ .endLf) :
    Unfinished d.inBuffer
      { d.setScan scan with
        inBuffer :=
          d.inBuffer.drop
            scan.vars.nowReadLineBegin.toNat } := by
  have hLong := List.length_pos_iff.mpr hSome
  unfold HeaderScan.Follows at hFollows
  rw [List.take_length] at hFollows
  unfold Unfinished
  simp only [HttpData.setScan]
  cases hAt : scan.hState with
  | start =>
      rw [hAt] at hFollows
      rcases hText hAt with ⟨b, hMem, hCr, hLf⟩
      rcases hFollows b hMem with rfl | rfl
      · exact absurd rfl hCr
      · exact absurd rfl hLf
  | lf =>
      rw [hAt] at hFollows
      rcases hFollows with ⟨hZero, _⟩ | ⟨hSuffix, hBegin⟩
      · omega
      · refine .inr (.inl ⟨rfl, ?_⟩)
        refine @drop_of_suffix _ [13] [10] _ hSuffix ?_
        rw [List.length_singleton]
        omega
  | endCr =>
      rw [hAt] at hFollows
      refine .inr (.inr ⟨rfl, ?_, hFollows.1⟩)
      refine
        @drop_of_suffix _ [13] [10, 13] _ hFollows.1 ?_
      have hBegin := hFollows.2
      have hThree : 3 ≤ d.inBuffer.length :=
        hFollows.1.length_le
      rw [List.length_cons, List.length_singleton]
      omega
  | endLf => exact absurd hAt hEnd
  | key => exact .inl rfl
  | colon => exact .inl rfl
  | spacesAfterColon => exact .inl rfl
  | value => exact .inl rfl
  | cr => exact .inl rfl

/-
  A call that begins between two lines stops short of the
  blank line, or has read it.
-/
theorem HttpData.parseHeadersBy_of_follows
    {d : HttpData}
    (hState : d.hState.inLine = false)
    (hInit :
      (⟨d.hState, d.headers, .init⟩ : HeaderScan).Follows
        d.inBuffer 0)
    (hSome : d.inBuffer ≠ [])
    (hText : d.hState = .start →
      ∃ b ∈ d.inBuffer, b ≠ 13 ∧ b ≠ 10) :
    ∃ flag d',
      d.parseHeadersBy .exact = .ok (flag, d') ∧
        d.ReadTo flag d' := by
  have hBounds := d.scanHeaders_of_not_inLine hState
  have hLoop := scanHeaders_of_follows hState hInit
  cases hCase : d.scanHeaders .exact with
  | error f =>
      rw [hCase] at hBounds
      exact hBounds.elim
  | ok how =>
      rw [hCase] at hBounds hLoop
      cases how with
      | error scan =>
          exact ⟨_, _, parseHeadersBy_of_error hCase, trivial⟩
      | stopped i scan =>
          by_cases hEnd : scan.hState = .endLf
          · refine
              ⟨_, _,
                parseHeadersBy_of_success hCase hEnd
                  hBounds.1,
                ?_⟩
            rcases hLoop with ⟨_, hFollows, _⟩ | ⟨_, hInfix⟩
            · unfold HeaderScan.Follows at hFollows
              rw [hEnd] at hFollows
              exact
                hFollows.isInfix.trans
                  (List.take_prefix _ _).isInfix
            · exact hInfix
          · refine
              ⟨_, _,
                parseHeadersBy_of_again hCase hEnd hBounds.2,
                ?_⟩
            rcases hLoop with
              ⟨rfl, hFollows, hStart⟩ | ⟨hNot, _⟩
            · exact
                unfinished_of_follows hSome
                  (fun hAt => hText (hStart hAt)) hFollows
                  hEnd
            · exact absurd hNot hEnd

/- A call that begins with these bytes in `H_START`. -/
theorem HttpData.parseHeadersBy_of_start
    {d : HttpData}
    (hState : d.hState = .start)
    (hText : ∃ b ∈ d.inBuffer, b ≠ 13 ∧ b ≠ 10) :
    ∃ flag d',
      d.parseHeadersBy .exact = .ok (flag, d') ∧
        d.ReadTo flag d' := by
  apply HttpData.parseHeadersBy_of_follows
  · rw [hState]
    rfl
  · unfold HeaderScan.Follows
    rw [hState]
    simp
  · rcases hText with ⟨b, hMem, _⟩
    exact List.ne_nil_of_mem hMem
  · exact fun _ => hText

end V3

end WebServer

------------------------------------------------------------
-- Calls That Begin With A Line End
------------------------------------------------------------

namespace WebServer

namespace V3

open StdString

/-
  The LF that the last call kept is read as the first byte
  of a key: the key is under way, or was stored.
-/
def HeaderScan.TakesLf
    (scan : HeaderScan)
    (i : Nat) : Prop :=
  (scan.hState = .lf ∧ i = 0) ∨
    (scan.hState.inLine = true ∧
      scan.vars.keyStart = 0 ∧
      (scan.hState = .key ∨ 0 < scan.vars.keyEnd)) ∨
    Tainted scan.headers

theorem Tainted.update
    {headers : Headers}
    (h : Tainted headers)
    (key value : Bytes) :
    Tainted (Function.update headers key (some value)) := by
  rcases h with ⟨name, old, hSome⟩
  by_cases hSame : 10 :: name = key
  · exact ⟨name, value, hSame ▸ Function.update_self _ _ _⟩
  · exact
      ⟨name, old, by rw [Function.update_of_ne hSame, hSome]⟩

/- A turn stores at most one header. -/
theorem HeaderScan.next_tainted
    {scan : HeaderScan}
    (h : Tainted scan.headers)
    (str : Bytes)
    (c : Byte)
    (i : Nat) :
    match scan.next .exact str c i with
    | .ok (.more scan') => Tainted scan'.headers
    | .ok (.done scan') => Tainted scan'.headers
    | _ => True := by
  rcases scan with ⟨hState, headers, vars⟩
  cases hState <;>
    simp only [HeaderScan.next, Ints.exact_sub_bind,
      HeaderScan.setState] at h ⊢
  case start =>
      split_ifs <;> exact h
  case key =>
      split_ifs
      · trivial
      · exact h
      · trivial
      · exact h
  case colon =>
      split_ifs
      · exact h
      · trivial
  case spacesAfterColon =>
      exact h
  case value =>
      split_ifs
      · trivial
      · exact h
      · trivial
      · exact h
  case cr =>
      split_ifs
      · cases range str vars.keyStart vars.keyEnd with
        | error f => trivial
        | ok key =>
            cases range str vars.valueStart vars.valueEnd with
            | error f => trivial
            | ok value => exact h.update key value
      · trivial
  case lf =>
      split_ifs <;> exact h
  case endCr =>
      split_ifs
      · exact h
      · trivial
  case endLf =>
      exact h

theorem HeaderScan.TakesLf.next
    {rest : Bytes}
    {scan : HeaderScan}
    {c : Byte}
    {i : Nat}
    (h : scan.TakesLf i)
    (hAt : (10 :: rest)[i]? = some c)
    (hPlace : scan.InPlace i)
    (hBound : i ≤ (10 :: rest).length) :
    match scan.next .exact (10 :: rest) c i with
    | .ok (.more scan') => scan'.TakesLf (i + 1)
    | .ok (.done scan') => Tainted scan'.headers
    | _ => True := by
  rcases h with ⟨hState, rfl⟩ | ⟨hLine, hKey, hEnd⟩ | hTaint
  · -- the LF itself
    cases hAt
    simp only [HeaderScan.next, hState, HeaderScan.setState]
    exact .inr (.inl ⟨rfl, rfl, .inl rfl⟩)
  · -- the rest of that line
    rcases scan with ⟨hState, headers, vars⟩
    unfold HeaderScan.TakesLf
    unfold HeaderScan.InPlace at hPlace
    cases hState <;>
      simp only [ParseState.inLine, Bool.false_eq_true]
        at hLine <;>
      simp only [HeaderScan.next, Ints.exact_sub_bind,
        HeaderScan.setState, HeaderLocals.KeySet,
        reduceCtorEq, false_or]
        at hKey hEnd hPlace ⊢
    case key =>
        split_ifs
        · trivial
        · exact
            .inr
              (.inl ⟨rfl, hKey, .inr (by simp only; omega)⟩)
        · trivial
        · exact .inr (.inl ⟨rfl, hKey, .inl rfl⟩)
    case colon =>
        split_ifs
        · exact .inr (.inl ⟨rfl, hKey, .inr hEnd⟩)
        · trivial
    case spacesAfterColon =>
        exact .inr (.inl ⟨rfl, hKey, hEnd⟩)
    case value =>
        split_ifs
        · trivial
        · exact .inr (.inl ⟨rfl, hKey, .inr hEnd⟩)
        · trivial
        · exact .inr (.inl ⟨rfl, hKey, .inr hEnd⟩)
    case cr =>
        rcases hPlace with ⟨_, hPlaceKey, hPlaceValue⟩
        obtain ⟨n, hSize⟩ :
            ∃ n, (vars.keyEnd - vars.keyStart).toNat = n + 1 :=
          ⟨(vars.keyEnd - vars.keyStart).toNat - 1, by omega⟩
        rw [range_of_inPlace hPlaceKey.1 hPlaceKey.2.1
            (by omega),
          range_of_inPlace hPlaceValue.1 hPlaceValue.2.1
            (by omega), hSize, hKey]
        split_ifs
        · exact
            .inr
              (.inr
                ⟨rest.take n, _, Function.update_self _ _ _⟩)
        · trivial
  · have hNext :=
      HeaderScan.next_tainted hTaint (10 :: rest) c i
    cases hCase : scan.next .exact (10 :: rest) c i with
    | error f => trivial
    | ok turn =>
        rw [hCase] at hNext
        cases turn with
        | more scan' => exact .inr (.inr hNext)
        | done scan' => exact hNext
        | error scan' => trivial

/-
  A call that begins in `H_LF` reads the LF it kept as part
  of a key. If it comes to the blank line, the key is among
  the headers.
-/
theorem HttpData.parseHeadersBy_of_lf
    {d : HttpData}
    {rest : Bytes}
    (hState : d.hState = .lf)
    (hBuffer : d.inBuffer = 10 :: rest) :
    ∃ flag d',
      d.parseHeadersBy .exact = .ok (flag, d') ∧
        match flag with
        | .again => Unfinished d.inBuffer d'
        | .success =>
            [13, 10, 13, 10] <:+: d.inBuffer ∧
              Tainted d'.headers
        | .error => True := by
  have hLine : d.hState.inLine = false := by
    rw [hState]
    rfl
  have hCall :
      ∃ flag d',
        d.parseHeadersBy .exact = .ok (flag, d') ∧
          d.ReadTo flag d' := by
    apply HttpData.parseHeadersBy_of_follows hLine
    · unfold HeaderScan.Follows
      rw [hState, hBuffer]
      exact .inl ⟨rfl, rfl⟩
    · rw [hBuffer]
      exact List.cons_ne_nil _ _
    · intro hStart
      rw [hState] at hStart
      cases hStart
  rcases hCall with ⟨flag, d', hCall, hEnd⟩
  refine ⟨flag, d', hCall, ?_⟩
  cases flag with
  | again => exact hEnd
  | error => trivial
  | success =>
      refine ⟨hEnd, ?_⟩
      have hLoop :=
        d.scanHeaders_rule .exact
          (I := fun i scan =>
            i ≤ d.inBuffer.length ∧
              scan.InPlace i ∧ scan.TakesLf i)
          (R := HeaderEnd.Meets
            (fun _ scan =>
              Tainted scan.headers ∨ scan.hState ≠ .endLf)
            fun _ => True)
          (F := fun _ => True)
          (by
            rintro scan ⟨_, _, ⟨hLf, _⟩ | ⟨hIn, _⟩ | hTaint⟩
            · right
              rw [hLf]
              exact ParseState.noConfusion
            · right
              intro hAt
              rw [hAt] at hIn
              cases hIn
            · exact .inl hTaint)
          (by
            intro i c scan hI hAt
            have hSmall : i < d.inBuffer.length :=
              (List.getElem?_eq_some_iff.mp hAt).1
            have hNext := hI.2.1.next hI.1 c
            have hTakes :=
              hI.2.2.next (hBuffer ▸ hAt) hI.2.1
                (hBuffer ▸ hI.1)
            rw [← hBuffer] at hTakes
            cases hCase : scan.next .exact d.inBuffer c i with
            | error f => trivial
            | ok turn =>
                rw [hCase] at hNext hTakes
                cases turn with
                | more scan' => exact ⟨hSmall, hNext, hTakes⟩
                | done scan' => exact .inl hTakes
                | error scan' => trivial)
          (by
            refine ⟨Nat.zero_le _, ⟨Int.le_refl 0, ?_⟩, ?_⟩
            · simp only [hState]
            · exact .inl ⟨hState, rfl⟩)
      rcases scanHeaders_of_success hCall with
        ⟨i, scan, hCase, hAt, _, rfl⟩
      rw [hCase] at hLoop
      exact hLoop.resolve_right fun hNot => hNot hAt

/-
  A call that begins after the CR of the blank line takes
  the CR it kept for the byte after that line.
-/
theorem HttpData.parseHeadersBy_of_endCr
    {d : HttpData}
    {rest : Bytes}
    (hState : d.hState = .endCr)
    (hBuffer : d.inBuffer = 10 :: 13 :: rest) :
    d.parseHeadersBy .exact =
      .ok
        (.success,
          { d with hState := .endLf, inBuffer := rest }) := by
  have hLf :
      (⟨d.hState, d.headers, .init⟩ : HeaderScan).next
          .exact d.inBuffer 10 0 =
        .ok (.more ⟨.endLf, d.headers, .init⟩) := by
    simp [HeaderScan.next, hState, isLf, HeaderScan.setState]
  have hScan :
      ∃ scan,
        d.scanHeaders .exact = .ok (.stopped 2 scan) ∧
          scan.hState = .endLf ∧ scan.headers = d.headers := by
    refine
      ⟨⟨.endLf, d.headers,
        { HeaderLocals.init with
          keyStart := 1
          nowReadLineBegin := 1 }⟩, ?_, rfl, rfl⟩
    have hLoop :
        headerLoop .exact d.inBuffer (10 :: 13 :: rest) 0
            ⟨d.hState, d.headers, .init⟩ =
          headerLoop .exact d.inBuffer (13 :: rest) 1
            ⟨.endLf, d.headers, .init⟩ :=
      headerLoop_of_more hLf
    unfold HttpData.scanHeaders
    rw [← hBuffer] at hLoop
    rw [hLoop]
    exact headerLoop_of_done rfl
  rcases hScan with ⟨scan, hScan, hEnd, hHeaders⟩
  rw [HttpData.parseHeadersBy_of_success hScan hEnd
    (by rw [hBuffer]; simp), hBuffer]
  simp only [HttpData.setScan, hEnd, hHeaders]
  rfl

end V3

end WebServer
