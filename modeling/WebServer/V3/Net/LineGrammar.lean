import WebServer.V3.Net.MethodNames

/-
  Which request lines `parseURI` of version 3.0 waits for,
  accepts and rejects.

  Searches that find nothing give `npos`, and the tests for
  a negative position never see it. So a buffer without a CR
  is parsed as it stands, a missing delimiter makes the
  version be looked for at the very start of the line, and
  an empty path is only noticed in front of a blank. The
  name of a method is searched for in the whole line.

  Positions in a line are kept in an `int`; the results hold
  for lines of every length.

  Key definitions include:
    * `HttpData.WaitsForLine`
    * `InOrder`
    * `HttpData.RejectsMalformed`
    * `WellFormedLine`
    * `WellFormedLine.AcceptedBy`

  Key theorems include:
    * `HttpData.waits_for_line_iff`
    * `HttpData.inOrder_of_version`
    * `HttpData.malformed_rejected_iff`
    * `WellFormedLine.well_formed_accepted_iff`
-/

------------------------------------------------------------
-- Waiting For A Line
------------------------------------------------------------

namespace WebServer

namespace V3

open StdString

namespace HttpData

/-
  Without a CR `parseURI` asks for more and leaves the
  buffer and the fields of the line as they are; with one it
  takes off the bytes up to and including the first.
-/
def WaitsForLine
    (d : HttpData) : Prop :=
  (13 ∉ d.inBuffer →
      ∃ d',
        d.parseURI = .ok (.again, d') ∧
          d'.inBuffer = d.inBuffer ∧
          d'.method = d.method ∧
          d'.fileName = d.fileName ∧
          d'.httpVersion = d.httpVersion) ∧
    ∀ line rest,
      d.inBuffer = line ++ 13 :: rest → 13 ∉ line →
        ∃ flag d',
          d.parseURI = .ok (flag, d') ∧
            d'.inBuffer = rest

/- A buffer is split at its first CR in one way only. -/
theorem first_cr_unique
    {buffer line rest line' rest' : Bytes}
    (hSplit : buffer = line ++ 13 :: rest)
    (hFirst : 13 ∉ line)
    (hSplit' : buffer = line' ++ 13 :: rest')
    (hFirst' : 13 ∉ line') :
    line = line' ∧ rest = rest' := by
  have hFind := findChar_append_cons (b := rest) hFirst
  have hFind' := findChar_append_cons (b := rest') hFirst'
  rw [← hSplit] at hFind
  rw [← hSplit', hFind] at hFind'
  have hLen : line.length = line'.length :=
    Option.some.inj hFind'
  rw [hSplit] at hSplit'
  have hParts := List.append_inj hSplit' hLen
  exact ⟨hParts.1, (List.cons.inj hParts.2).2⟩

/-
  Whatever the line cut off, a call ends with a verdict on
  it and does not touch the buffer again.
-/
theorem parseURI_of_cut
    {d d' : HttpData}
    {line : Bytes}
    (hCut : d.cutLine = .ok (line, d')) :
    ∃ flag d'',
      d.parseURI = .ok (flag, d'') ∧
        flag ≠ .again ∧
        d''.inBuffer = d'.inBuffer := by
  unfold parseURI
  rw [hCut]
  simp only [parseRequestLine, bind, Except.bind]
  cases findMethod line with
  | none => exact ⟨_, _, rfl, UriState.noConfusion, rfl⟩
  | some found =>
      rcases found with ⟨method, pos⟩
      rcases parseTarget_eq line method pos with
        ⟨name, hTarget⟩
      simp only [hTarget]
      cases readVersion line pos with
      | none =>
          exact ⟨_, _, rfl, UriState.noConfusion, rfl⟩
      | some version =>
          exact ⟨_, _, rfl, UriState.noConfusion, rfl⟩

/-
  A buffer with a CR at or behind `nowReadPos_` and none in
  front of it is the only one handled so.
-/
theorem waits_for_line_iff
    (d : HttpData) :
    d.WaitsForLine ↔
      ∃ line rest,
        d.inBuffer = line ++ 13 :: rest ∧
          13 ∉ line ∧ d.nowReadPos ≤ line.length := by
  constructor
  · rintro ⟨hWaits, hTakes⟩
    by_cases hCr : 13 ∈ d.inBuffer
    · rcases List.eq_append_cons_of_mem hCr with
        ⟨line, rest, hSplit, hFirst⟩
      refine ⟨line, rest, hSplit, hFirst, ?_⟩
      rcases hTakes line rest hSplit hFirst with
        ⟨flag, d', hCall, hRest⟩
      by_contra hLate
      have hLen := congrArg List.length hSplit
      rw [List.length_append, List.length_cons] at hLen
      rcases d.cutLine_cases with
        ⟨_, hCut⟩ | ⟨pos, hFind, hCut⟩
      · rcases parseURI_of_cut hCut with
          ⟨flag', d'', hCall', _, hSame⟩
        rw [hCall] at hCall'
        cases hCall'
        rw [hRest] at hSame
        have hLen' := congrArg List.length hSame
        omega
      · rcases parseURI_of_cut hCut with
          ⟨flag', d'', hCall', _, hSame⟩
        rw [hCall] at hCall'
        cases hCall'
        rw [hRest] at hSame
        have hLen' := congrArg List.length hSame
        rw [List.length_drop] at hLen'
        rcases findChar_split hFind with ⟨a, _, _, hPos⟩
        have hIn := findChar_lt hFind
        omega
    · rcases hWaits hCr with ⟨d', hCall, _⟩
      exfalso
      have hVerdict : ∀ {line d₁},
          d.cutLine = .ok (line, d₁) → False := by
        intro line d₁ hCut
        rcases parseURI_of_cut hCut with
          ⟨flag, d'', hCall', hNot, _⟩
        rw [hCall] at hCall'
        cases hCall'
        exact hNot rfl
      rcases d.cutLine_cases with ⟨_, hCut⟩ | ⟨_, _, hCut⟩
      · exact hVerdict hCut
      · exact hVerdict hCut
  · rintro ⟨line, rest, hSplit, hFirst, hPos⟩
    constructor
    · intro hNone
      exact absurd (by simp [hSplit]) hNone
    · intro line' rest' hSplit' hFirst'
      rcases first_cr_unique hSplit hFirst hSplit' hFirst' with
        ⟨rfl, rfl⟩
      have hCut := cutLine_of_cr hPos hSplit hFirst
      rcases parseURI_of_cut hCut with
        ⟨flag, d', hCall, _, hSame⟩
      exact ⟨flag, d', hCall, hSame⟩

/- The first bytes of a name are answered with an error. -/
theorem waits_for_line_counterexample :
    ¬ ({ HttpData.new with
        inBuffer := utf8 "GE" }).WaitsForLine := by
  intro h
  rcases h.1 (by decide +kernel) with ⟨d', hCall, _⟩
  have hFlag :
      (({ HttpData.new with
          inBuffer := utf8 "GE" }).parseURI).map
          Prod.fst =
        .ok .error := by
    decide +kernel
  rw [hCall] at hFlag
  cases hFlag

end HttpData

end V3

end WebServer

------------------------------------------------------------
-- Malformed Lines
------------------------------------------------------------

namespace WebServer

namespace V3

open StdString

/-
  The name of the method, a slash and the target, a blank, a
  slash and a version stand in the line in this order.
-/
def InOrder
    (line : Bytes)
    (method : HttpMethod) : Prop :=
  ∃ pre mid target gap tail,
    ∃ version : HttpVersion,
      line =
          pre ++ (method.text ++ (mid ++ 47 ::
            (target ++ 32 :: (gap ++ 47 ::
              (version.text ++ tail))))) ∧
        32 ∉ target

namespace HttpData

/-
  A line with a slash behind the name of its method is
  accepted only when it is in order, and is otherwise
  answered with an error.
-/
def RejectsMalformed
    (d : HttpData)
    (line : Bytes) : Prop :=
  ∃ flag d',
    d.parseURI = .ok (flag, d') ∧
      ∀ method pos k,
        findMethod line = some (method, pos) →
          find method.text line = some k →
          47 ∈ line.drop k →
          (flag = .success → InOrder line method) ∧
            (¬ InOrder line method → flag = .error)

/- A version is at the front of the bytes. -/
def startsWithVersion
    (bytes : Bytes) : Prop :=
  ∃ version : HttpVersion, version.text <+: bytes

/-
  The line of a name with a slash behind it that `parseURI`
  treats as it should. The version is not taken from the
  front of the line for want of a blank or of a slash. Where
  the `int` is not the place of the name, what was found
  from there is in order.
-/
def Delimited
    (line : Bytes) : Prop :=
  ∀ method pos k,
    findMethod line = some (method, pos) →
      find method.text line = some k →
      47 ∈ line.drop k →
      match versionSlash line pos with
      | none => ¬ startsWithVersion line
      | some slash =>
          pos ≠ k →
            startsWithVersion (line.drop (slash + 1)) →
            InOrder line method

theorem findName_nonneg
    {name line : Bytes}
    (hNonneg : 0 ≤ findName name line) :
    ∃ k,
      find name line = some k ∧
        (findName name line).toNat ≤ k := by
  unfold findName at hNonneg ⊢
  cases hFind : find name line with
  | none =>
      rw [hFind] at hNonneg
      exact absurd hNonneg (by decide)
  | some k => exact ⟨k, rfl, toNat_toInt32_le k⟩

/- The search starts at the name or in front of it. -/
theorem findMethod_spec
    {line : Bytes}
    {method : HttpMethod}
    {pos : Nat}
    (hFind : findMethod line = some (method, pos)) :
    ∃ k, find method.text line = some k ∧ pos ≤ k := by
  simp only [findMethod] at hFind
  split_ifs at hFind with hGet hPost hHead
  · cases hFind
    exact findName_nonneg hGet
  · cases hFind
    exact findName_nonneg hPost
  · cases hFind
    exact findName_nonneg hHead

/- Three bytes spell a version. -/
theorem versionOf_eq_some_iff
    (ver : Bytes)
    (version : HttpVersion) :
    versionOf ver = some version ↔ ver = version.text := by
  unfold versionOf
  split_ifs with hOld hNew
  · subst hOld
    cases version <;> decide
  · subst hNew
    cases version <;> decide
  · refine ⟨nofun, fun hEq => ?_⟩
    cases version with
    | http10 => exact absurd hEq hOld
    | http11 => exact absurd hEq hNew

theorem length_version_text
    (version : HttpVersion) :
    version.text.length = 3 := by
  cases version <;> rfl

theorem version_prefix_iff
    (bytes : Bytes)
    (version : HttpVersion) :
    version.text <+: bytes ↔
      ¬ bytes.length ≤ 2 ∧
        versionOf (bytes.take 3) = some version := by
  rw [versionOf_eq_some_iff, List.prefix_iff_eq_take,
    length_version_text]
  constructor
  · intro hEq
    have hLen := congrArg List.length hEq
    rw [length_version_text, List.length_take] at hLen
    exact ⟨by omega, hEq.symm⟩
  · rintro ⟨_, hEq⟩
    exact hEq.symm

/- Behind the slash, the version is read where it should be. -/
theorem readVersion_of_slash
    {line : Bytes}
    {pos slash : Nat}
    (hSlash : versionSlash line pos = some slash)
    (version : HttpVersion) :
    readVersion line pos = some version ↔
      version.text <+: line.drop (slash + 1) := by
  have hIn : slash < line.length := by
    rcases Option.bind_eq_some_iff.mp hSlash with
      ⟨_, _, hFind⟩
    exact findChar_lt hFind
  rw [version_prefix_iff, List.length_drop]
  simp only [readVersion, hSlash, versionText]
  split_ifs with hShort
  · constructor
    · intro hNone
      cases hNone
    · rintro ⟨hLong, _⟩
      omega
  · simp only [substr, if_pos (show slash + 1 ≤ line.length
      from hIn), bind, Except.bind]
    exact ⟨fun h => ⟨by omega, h⟩, fun h => h.2⟩

/- With nothing to look behind, it is the front of the line. -/
theorem readVersion_of_none
    {line : Bytes}
    {pos : Nat}
    (hSlash : versionSlash line pos = none)
    (version : HttpVersion) :
    readVersion line pos = some version ↔
      version.text <+: line := by
  rw [version_prefix_iff]
  simp only [readVersion, hSlash, versionText]
  split_ifs with hShort
  · constructor
    · intro hNone
      cases hNone
    · rintro ⟨hLong, _⟩
      omega
  · simp only [substr_front, bind, Except.bind]
    exact ⟨fun h => ⟨by omega, h⟩, fun h => h.2⟩

/- From the name on, a line in order has all delimiters. -/
theorem versionSlash_ne_none
    {line : Bytes}
    {method : HttpMethod}
    {pos k : Nat}
    (hName : find method.text line = some k)
    (hPos : pos ≤ k)
    (hOrder : InOrder line method) :
    versionSlash line pos ≠ none := by
  rcases hOrder with
    ⟨pre, mid, target, gap, tail, version, hLine, _⟩
  have hFirst : k ≤ pre.length := by
    have hAt : method.text <+: line.drop pre.length := by
      rw [hLine, List.drop_left]
      exact List.prefix_append _ _
    have hIn : pre.length ≤ line.length := by
      rw [hLine, List.length_append]
      omega
    rcases find_le_of_prefix hIn hAt with
      ⟨k', hLe, hFind⟩
    rw [hName] at hFind
    cases hFind
    exact hLe
  -- the delimiters that the searches cannot miss
  have hTarget :
      line =
        (pre ++ (method.text ++ mid)) ++ 47 ::
          (target ++ 32 :: (gap ++ 47 ::
            (version.text ++ tail))) := by
    simp [hLine]
  have hBlank :
      line =
        (pre ++ (method.text ++ (mid ++ 47 :: target))) ++
          32 :: (gap ++ 47 :: (version.text ++ tail)) := by
    simp [hLine]
  have hVersion :
      line =
        (pre ++ (method.text ++ (mid ++ 47 ::
          (target ++ 32 :: gap)))) ++
            47 :: (version.text ++ tail) := by
    simp [hLine]
  have hAt : ∀ (a b : Bytes) (c : UInt8),
      line = a ++ c :: b → getElem? line a.length = some c := by
    rintro a b c rfl
    simp
  have hFrom :
      pos ≤ (pre ++ (method.text ++ mid)).length := by
    rw [List.length_append]
    omega
  rcases findChar_le hFrom (hAt _ _ _ hTarget) with
    ⟨i, hI, hFindTarget⟩
  have hFromI :
      i ≤
        (pre ++ (method.text ++
          (mid ++ 47 :: target))).length := by
    simp only [List.length_append, List.length_cons] at hI ⊢
    omega
  rcases findChar_le hFromI (hAt _ _ _ hBlank) with
    ⟨j, hJ, hFindBlank⟩
  have hFromJ :
      j ≤
        (pre ++ (method.text ++ (mid ++ 47 ::
          (target ++ 32 :: gap)))).length := by
    simp only [List.length_append, List.length_cons] at hJ ⊢
    omega
  rcases findChar_le hFromJ (hAt _ _ _ hVersion) with
    ⟨slash, _, hFindVersion⟩
  have hBytes :
      UInt8.ofNat 47 = 47 ∧ UInt8.ofNat 32 = 32 :=
    ⟨rfl, rfl⟩
  simp only [versionSlash, findSlash, findBlank,
    Option.bind_some, hBytes.1, hBytes.2, hFindTarget,
    hFindBlank, hFindVersion]
  exact Option.some_ne_none slash

/-
  What the searches find from the name on is in order when a
  version follows.
-/
theorem inOrder_of_version
    {line : Bytes}
    {method : HttpMethod}
    {k slash : Nat}
    {version : HttpVersion}
    (hName : find method.text line = some k)
    (hSlash : versionSlash line k = some slash)
    (hVersion : version.text <+: line.drop (slash + 1)) :
    InOrder line method := by
  rcases Option.bind_eq_some_iff.mp hSlash with
    ⟨blank, hBlank, hFindSlash⟩
  rcases Option.bind_eq_some_iff.mp hBlank with
    ⟨first, hFirst, hFindBlank⟩
  have hFindFirst :
      findChar line 47 k = some first := hFirst
  have hBytes :
      UInt8.ofNat 47 = 47 ∧ UInt8.ofNat 32 = 32 :=
    ⟨rfl, rfl⟩
  rw [hBytes.2] at hFindBlank
  rw [hBytes.1] at hFindSlash
  rcases findChar_split hFindFirst with ⟨a, hA, _, _⟩
  rcases findChar_split hFindBlank with ⟨b, hB, hBNot, _⟩
  rcases findChar_split hFindSlash with ⟨c, hC, _, _⟩
  -- the name ends in front of the first slash
  obtain ⟨mid, hMid⟩ : method.text <+: a := by
    have hPrefix := find_prefix hName
    rw [hA, ← List.isPrefixOf_iff_prefix,
      isPrefixOf_append_cons
        (by cases method <;> decide)] at hPrefix
    exact List.isPrefixOf_iff_prefix.mp hPrefix
  -- the blank is not where the slash is, nor the next slash
  obtain ⟨target, rfl⟩ : ∃ target, b = 47 :: target := by
    have hHead := drop_of_findChar hFindFirst
    rw [hB] at hHead
    cases b with
    | nil => cases hHead
    | cons x b =>
        rw [List.cons_append] at hHead
        exact ⟨b, by rw [(List.cons.inj hHead).1]⟩
  obtain ⟨gap, rfl⟩ : ∃ gap, c = 32 :: gap := by
    have hHead := drop_of_findChar hFindBlank
    rw [hC] at hHead
    cases c with
    | nil => cases hHead
    | cons x c =>
        rw [List.cons_append] at hHead
        exact ⟨c, by rw [(List.cons.inj hHead).1]⟩
  rcases hVersion with ⟨tail, hTail⟩
  refine
    ⟨line.take k, mid, target, gap, tail, version, ?_, ?_⟩
  · have hRest :
        line.drop (first + 1) =
          target ++ 32 :: line.drop (blank + 1) := by
      have hHead := drop_of_findChar hFindFirst
      rw [hB, List.cons_append] at hHead
      exact (List.cons.inj hHead).2.symm
    have hGap :
        line.drop (blank + 1) =
          gap ++ 47 :: line.drop (slash + 1) := by
      have hHead := drop_of_findChar hFindBlank
      rw [hC, List.cons_append] at hHead
      exact (List.cons.inj hHead).2.symm
    calc line
        = line.take k ++ line.drop k :=
          (List.take_append_drop k line).symm
      _ = _ := by
          rw [hA, hRest, hGap, ← hTail, ← hMid,
            List.append_assoc]
  · intro hMem
    exact hBNot (List.mem_cons_of_mem _ hMem)

/- Accepted lines are those with a version. -/
theorem parseURI_verdict
    {d d' : HttpData}
    {line : Bytes}
    {method : HttpMethod}
    {pos : Nat}
    (hCut : d.cutLine = .ok (line, d'))
    (hFind : findMethod line = some (method, pos)) :
    ∃ flag d'',
      d.parseURI = .ok (flag, d'') ∧
        ((flag = .success ∧
            ∃ version, readVersion line pos = some version) ∨
          flag = .error ∧ readVersion line pos = none) := by
  rcases parseTarget_eq line method pos with ⟨name, hTarget⟩
  unfold parseURI
  simp only [hCut, parseRequestLine, hFind, hTarget, bind,
    Except.bind]
  cases readVersion line pos with
  | none => exact ⟨_, _, rfl, .inr ⟨rfl, rfl⟩⟩
  | some version =>
      exact ⟨_, _, rfl, .inl ⟨rfl, version, rfl⟩⟩

/-
  In every buffer with a CR, the line is handled as it
  should be just when it is delimited.
-/
theorem malformed_rejected_iff
    {d : HttpData}
    {line rest : Bytes}
    (hPos : d.nowReadPos ≤ line.length)
    (hBuffer : d.inBuffer = line ++ 13 :: rest)
    (hLine : 13 ∉ line) :
    d.RejectsMalformed line ↔ Delimited line := by
  have hCut := cutLine_of_cr hPos hBuffer hLine
  constructor
  · rintro ⟨flag, d', hCall, hRejects⟩
      method pos k hMethod hName hBehind
    rcases parseURI_verdict hCut hMethod with
      ⟨flag', d'', hCall', hVerdict⟩
    rw [hCall] at hCall'
    cases hCall'
    rcases hRejects method pos k hMethod hName hBehind with
      ⟨hAccepted, _⟩
    have hOrder : ∀ version,
        readVersion line pos = some version →
          InOrder line method := by
      intro version hVersion
      rcases hVerdict with ⟨hFlag, _⟩ | ⟨_, hNone⟩
      · exact hAccepted hFlag
      · rw [hNone] at hVersion
        cases hVersion
    have hBefore : pos ≤ k := by
      rcases findMethod_spec hMethod with ⟨k', hFind, hLe⟩
      rw [hName] at hFind
      cases hFind
      exact hLe
    cases hSlash : versionSlash line pos with
    | none =>
        rintro ⟨version, hVersion⟩
        have hRead :=
          (readVersion_of_none hSlash version).mpr hVersion
        exact
          versionSlash_ne_none hName hBefore
            (hOrder version hRead) hSlash
    | some slash =>
        rintro - ⟨version, hVersion⟩
        exact
          hOrder version
            ((readVersion_of_slash hSlash version).mpr
              hVersion)
  · intro hDelimited
    cases hMethod : findMethod line with
    | none =>
        refine ⟨.error, { d with inBuffer := rest }, ?_, ?_⟩
        · simp only [parseURI, hCut, parseRequestLine,
            hMethod, bind, Except.bind]
        · intro method pos k hSome
          rw [hMethod] at hSome
          cases hSome
    | some found =>
        rcases found with ⟨method, pos⟩
        rcases parseURI_verdict hCut hMethod with
          ⟨flag, d', hCall, hVerdict⟩
        refine ⟨flag, d', hCall, ?_⟩
        intro method' pos' k hSame hName hBehind
        rw [hMethod] at hSame
        cases hSame
        have hDue :=
          hDelimited method pos k hMethod hName hBehind
        have hOrder : ∀ version,
            readVersion line pos = some version →
              InOrder line method := by
          intro version hRead
          cases hSlash : versionSlash line pos with
          | none =>
              rw [hSlash] at hDue
              exact
                absurd
                  ⟨version,
                    (readVersion_of_none hSlash version).mp
                      hRead⟩
                  hDue
          | some slash =>
              rw [hSlash] at hDue
              have hVersion :=
                (readVersion_of_slash hSlash version).mp
                  hRead
              by_cases hAt : pos = k
              · subst hAt
                exact
                  inOrder_of_version hName hSlash hVersion
              · exact hDue hAt ⟨version, hVersion⟩
        rcases hVerdict with
          ⟨hFlag, version, hRead⟩ | ⟨hFlag, _⟩
        · exact
            ⟨fun _ => hOrder version hRead,
              fun hNot => absurd (hOrder version hRead) hNot⟩
        · rw [hFlag]
          exact ⟨fun hDone => (by cases hDone), fun _ => rfl⟩

theorem malformed_rejected_witness :
    ({ HttpData.new with
        inBuffer := utf8 "GET / HTTP/1.1" ++ [13] }
      ).RejectsMalformed (utf8 "GET / HTTP/1.1") ↔
      Delimited (utf8 "GET / HTTP/1.1") :=
  malformed_rejected_iff (Nat.zero_le _) rfl
    (by decide +kernel)

/- A version in front of the name stands for the missing one. -/
theorem malformed_rejected_counterexample :
    ¬ ({ HttpData.new with
        inBuffer := utf8 "1.1GET/" ++ [13] }
      ).RejectsMalformed (utf8 "1.1GET/") := by
  rintro ⟨flag, d', hCall, hRejects⟩
  have hFlag :
      (({ HttpData.new with
          inBuffer := utf8 "1.1GET/" ++ [13] }
        ).parseURI).map Prod.fst =
        .ok .success := by
    decide +kernel
  rw [hCall] at hFlag
  cases hFlag
  rcases hRejects .get 3 3 (by decide +kernel)
      (by decide +kernel) (by decide +kernel) with
    ⟨hOrder, _⟩
  rcases hOrder rfl with
    ⟨pre, mid, target, gap, tail, version, hLine, _⟩
  -- there is no blank in the line
  have hBlank : (32 : UInt8) ∉ utf8 "1.1GET/" := by
    decide +kernel
  rw [hLine] at hBlank
  simp at hBlank

end HttpData

end V3

end WebServer

------------------------------------------------------------
-- Well-Formed Lines
------------------------------------------------------------

namespace WebServer

namespace V3

open StdString

/-
  A method, a path without the slash in front, maybe a
  query, and a version.
-/
structure WellFormedLine where
  method : HttpMethod
  path : Bytes
  query : Option Bytes
  version : HttpVersion
  path_plain : ∀ b ∈ path, b ≠ 32 ∧ b ≠ 13 ∧ b ≠ 63
  query_plain :
    ∀ q, query = some q → ∀ b ∈ q, b ≠ 32 ∧ b ≠ 13

namespace WellFormedLine

/- The path and the query. -/
def target
    (l : WellFormedLine) : Bytes :=
  match l.query with
  | some q => l.path ++ 63 :: q
  | none => l.path

def bytes
    (l : WellFormedLine) : Bytes :=
  l.method.text ++ 32 :: (47 :: l.target ++ 32 ::
    (utf8 "HTTP" ++ 47 :: l.version.text))

/- `parseURI` takes the line off and keeps what it says. -/
def AcceptedBy
    (l : WellFormedLine)
    (d : HttpData)
    (rest : Bytes) : Prop :=
  ∃ d',
    d.parseURI = .ok (.success, d') ∧
      d'.method = l.method ∧
      d'.fileName =
        (if l.path = [] then utf8 "index.html" else l.path) ∧
      d'.httpVersion = l.version ∧
      d'.inBuffer = rest

/-
  No name of a method that is looked for before its own is
  found in the line.
-/
def NamedFirst
    (l : WellFormedLine) : Prop :=
  (l.method ≠ .get →
      HttpData.findName (utf8 "GET") l.bytes < 0) ∧
    (l.method = .head →
      HttpData.findName (utf8 "POST") l.bytes < 0)

theorem target_plain
    (l : WellFormedLine) :
    ∀ b ∈ l.target, b ≠ 32 ∧ b ≠ 13 := by
  unfold target
  cases hQuery : l.query with
  | none =>
      intro b hMem
      have hPlain := l.path_plain b hMem
      exact ⟨hPlain.1, hPlain.2.1⟩
  | some q =>
      intro b hMem
      rcases List.mem_append.mp hMem with hMem | hMem
      · have hPlain := l.path_plain b hMem
        exact ⟨hPlain.1, hPlain.2.1⟩
      · rcases List.mem_cons.mp hMem with rfl | hMem
        · decide
        · exact l.query_plain q hQuery b hMem

theorem no_cr_bytes
    (l : WellFormedLine) :
    13 ∉ l.bytes := by
  have hMethod : 13 ∉ l.method.text := by
    cases l.method <;> decide
  have hVersion : 13 ∉ l.version.text := by
    cases l.version <;> decide
  have hTarget : 13 ∉ l.target :=
    fun hMem => (l.target_plain 13 hMem).2 rfl
  have hHttp : 13 ∉ utf8 "HTTP" := by decide
  simp [bytes, hMethod, hVersion, hTarget, hHttp]

/- The file is the path, but for an empty one and a query. -/
theorem fileOf_target_iff
    (l : WellFormedLine) :
    fileOf l.target =
        (if l.path = [] then utf8 "index.html" else l.path) ↔
      (l.path = [] → l.query = none) := by
  have hPlain : ∀ b ∈ l.path, (b != 63) = true := by
    intro b hMem
    simpa using (l.path_plain b hMem).2.2
  unfold fileOf target
  cases l.query with
  | none =>
      by_cases hNil : l.path = []
      · simp [hNil]
      · simp only [hNil, if_false]
        exact
          ⟨fun _ h => absurd h id,
            fun _ => List.takeWhile_eq_self_iff.mpr hPlain⟩
  | some q =>
      simp only [List.append_eq_nil_iff, reduceCtorEq,
        and_false, if_false,
        List.takeWhile_append_of_pos hPlain]
      by_cases hNil : l.path = []
      · have hIndex : utf8 "index.html" ≠ [] := by decide
        simp [hNil, hIndex.symm]
      · simp [hNil]

/- The name at the front is found there. -/
theorem findName_own
    (l : WellFormedLine) :
    HttpData.findName l.method.text l.bytes = 0 := by
  have hName : l.method.text ≠ [] := by
    cases l.method <;> decide
  unfold HttpData.findName bytes
  rw [find_append_self hName]
  rfl

theorem findMethod_bytes_iff
    (l : WellFormedLine)
    (pos : Nat) :
    HttpData.findMethod l.bytes = some (l.method, pos) ↔
      l.NamedFirst ∧ pos = 0 := by
  have hOwn := l.findName_own
  simp only [NamedFirst, HttpData.findMethod]
  cases hMethod : l.method with
  | get =>
      rw [hMethod, HttpMethod.text] at hOwn
      simp [hOwn, eq_comm]
  | post =>
      rw [hMethod, HttpMethod.text] at hOwn
      by_cases hGet :
          0 ≤ HttpData.findName (utf8 "GET") l.bytes
      · simp [hGet, Int.not_lt.mpr hGet]
      · simp [hGet, hOwn, Int.lt_of_not_ge hGet, eq_comm]
  | head =>
      rw [hMethod, HttpMethod.text] at hOwn
      by_cases hGet :
          0 ≤ HttpData.findName (utf8 "GET") l.bytes
      · simp [hGet, Int.not_lt.mpr hGet]
      · by_cases hPost :
            0 ≤ HttpData.findName (utf8 "POST") l.bytes
        · simp [hGet, hPost, Int.not_lt.mpr hPost]
        · simp [hGet, hPost, hOwn, Int.lt_of_not_ge hGet,
            Int.lt_of_not_ge hPost, eq_comm]

/- In a line below two gigabytes, a name in the target. -/
theorem namedFirst_iff_of_short
    {l : WellFormedLine}
    (hShort : l.bytes.length < 2 ^ 31) :
    l.NamedFirst ↔
      (l.method ≠ .get →
          find (utf8 "GET") (47 :: l.target) = none) ∧
        (l.method = .head →
          find (utf8 "POST") (47 :: l.target) = none) := by
  have hNone : ∀ name,
      HttpData.findName name l.bytes < 0 ↔
        find name l.bytes = none := by
    intro name
    rw [HttpData.findName_of_short name hShort]
    cases find name l.bytes with
    | none => simp
    | some k => simp
  have hIn : ∀ name,
      name = utf8 "GET" ∨ name = utf8 "POST" ∨
          name = utf8 "HEAD" →
        find name l.method.text = none →
        (find name l.bytes = none ↔
          find name (47 :: l.target) = none) := by
    intro name hName hWord
    unfold bytes
    rw [find_name hName, hWord, Option.none_or,
      Option.map_eq_none_iff]
  unfold NamedFirst
  rw [hNone, hNone]
  cases hMethod : l.method with
  | get => simp
  | post =>
      rw [hMethod] at hIn
      rw [hIn _ (.inl rfl) (by decide)]
      simp
  | head =>
      rw [hMethod] at hIn
      rw [hIn _ (.inl rfl) (by decide),
        hIn _ (.inr (.inl rfl)) (by decide)]

/-
  A well-formed line is read as itself when no other name
  comes first and an empty path has no query.
-/
theorem well_formed_accepted_iff
    (l : WellFormedLine)
    {d : HttpData}
    {rest : Bytes}
    (hPos : d.nowReadPos ≤ l.bytes.length)
    (hBuffer : d.inBuffer = l.bytes ++ 13 :: rest) :
    l.AcceptedBy d rest ↔
      l.NamedFirst ∧ (l.path = [] → l.query = none) := by
  have hCut :=
    HttpData.cutLine_of_cr hPos hBuffer l.no_cr_bytes
  have hDrop :
      l.bytes.drop 0 =
        (l.method.text ++ [32]) ++ 47 ::
          (l.target ++ 32 ::
            (utf8 "HTTP" ++ 47 :: l.version.text)) := by
    simp [bytes]
  have hPre : 47 ∉ l.method.text ++ [32] := by
    cases l.method <;> decide
  have hTarget : 32 ∉ l.target :=
    fun hMem => (l.target_plain 32 hMem).1 rfl
  have hCall : l.NamedFirst →
      d.parseURI =
        .ok
          (.success,
            { d with inBuffer := rest }.setLine l.method
              (fileOf l.target) l.version) := by
    intro hFirst
    have hMethod :=
      (l.findMethod_bytes_iff 0).mpr ⟨hFirst, rfl⟩
    simp only [HttpData.parseURI, hCut,
      HttpData.parseRequestLine, hMethod, bind, Except.bind]
    exact
      HttpData.parseTarget_of_target hDrop hPre hTarget
        (by decide) _ _
  constructor
  · rintro ⟨d', hAccepted, hMethod, hFile, _⟩
    -- the method found is that of the line
    have hFirst : l.NamedFirst := by
      cases hFind : HttpData.findMethod l.bytes with
      | none =>
          simp only [HttpData.parseURI, hCut,
            HttpData.parseRequestLine, hFind, bind,
            Except.bind] at hAccepted
          cases hAccepted
      | some found =>
          rcases found with ⟨method, pos⟩
          have hKept : d'.method = method := by
            rcases
              HttpData.parseTarget_eq l.bytes method pos with
              ⟨name, hTarget⟩
            simp only [HttpData.parseURI, hCut,
              HttpData.parseRequestLine, hFind, hTarget,
              bind, Except.bind] at hAccepted
            cases hVersion :
                HttpData.readVersion l.bytes pos with
            | none =>
                rw [hVersion] at hAccepted
                cases hAccepted
            | some version =>
                rw [hVersion] at hAccepted
                cases hAccepted
                rfl
          rw [← hKept, hMethod] at hFind
          exact ((l.findMethod_bytes_iff pos).mp hFind).1
    rw [hCall hFirst] at hAccepted
    cases hAccepted
    exact ⟨hFirst, l.fileOf_target_iff.mp hFile⟩
  · rintro ⟨hFirst, hQuery⟩
    exact
      ⟨_, hCall hFirst, rfl, l.fileOf_target_iff.mpr hQuery,
        rfl, rfl⟩

/- `POST /GET HTTP/1.1`. -/
def postGet : WellFormedLine where
  method := .post
  path := utf8 "GET"
  query := none
  version := .http11
  path_plain := by decide +kernel
  query_plain := nofun

theorem well_formed_accepted_witness :
    postGet.AcceptedBy
        { HttpData.new with
          inBuffer := postGet.bytes ++ [13] } [] ↔
      postGet.NamedFirst ∧
        (postGet.path = [] → postGet.query = none) :=
  well_formed_accepted_iff postGet (Nat.zero_le _) rfl

/- The name of the file is taken for the method. -/
theorem well_formed_accepted_counterexample :
    ¬ postGet.AcceptedBy
        { HttpData.new with
          inBuffer := postGet.bytes ++ [13] } [] := by
  rintro ⟨d', hCall, hMethod, _⟩
  have hGet :
      (({ HttpData.new with
          inBuffer := postGet.bytes ++ [13] }
        ).parseURI).map
          (fun out : UriState × HttpData => out.2.method) =
        .ok HttpMethod.get := by
    decide +kernel
  rw [hCall] at hGet
  simp only [Except.map, hMethod] at hGet
  cases hGet

end WellFormedLine

end V3

end WebServer
