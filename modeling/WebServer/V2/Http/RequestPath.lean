import Mathlib.Data.List.TakeWhile
import WebServer.V2.Http.Lines

/-
  What a request line asks for in version 2.0.

  `parse_request_line` cuts the line in place and leaves
  `m_url` at the path. Here the path is read off the bytes
  of the line, and the pointers are shown to agree with it.

  Key definitions include:
    * `cutBlank`
    * `requestPath`
    * `HttpParser.Asks`

  Key theorems include:
    * `HttpParser.parseRequestLine_asks`
-/

------------------------------------------------------------
-- Paths
------------------------------------------------------------

namespace WebServer

namespace V2

/- The bytes in front of the first blank and behind it. -/
def cutBlank
    (s : Bytes) : Option (Bytes × Bytes) :=
  (s.findIdx? (blanks.contains ·)).map fun j =>
    (s.take j, s.drop (j + 1))

/- The path of a target, which may begin with a host. -/
def targetPath
    (target : Bytes) : Option Bytes :=
  let path :=
    if CString.strncaseEq target (utf8 "http://") 7 then
      (target.drop 7).dropWhile (· != 47)
    else
      target
  if path.head? = some 47 then some path else none

/- The path of what follows the method in a request line. -/
def versionedPath
    (rest : Bytes) : Option Bytes := do
  let (target, version) ← cutBlank rest
  if CString.strcaseEq version (utf8 "HTTP/1.1") then
    targetPath target
  else
    none

/- The path a request line asks for, if it is in order. -/
def requestPath
    (line : Bytes) : Option Bytes := do
  let (method, rest) ← cutBlank line
  if CString.strcaseEq method (utf8 "GET") then
    versionedPath rest
  else
    none

end V2

end WebServer

------------------------------------------------------------
-- Pointers
------------------------------------------------------------

namespace WebServer

namespace V2

namespace HttpParser

/- A pointer at a string that ends before `m_checked_idx`. -/
def PointsAt
    (c : HttpParser)
    (p : Option Nat)
    (text : Bytes) : Prop :=
  ∃ k,
    p = some k ∧ c.stringAt k = text ∧
      CString.Ends c.readBuffer k c.checkedIdx

/- The answer to a request line that asks for `path`. -/
def Asks
    (r : HttpCode × HttpParser) :
    Option Bytes → Prop
| none => r.1 = .badRequest
| some path =>
    r.1 = .noRequest ∧ r.2.PointsAt r.2.url path

/- The search for a blank and the bytes around it. -/
theorem strpbrk_cutBlank
    {c : HttpParser}
    {p n : Nat}
    (hEnds : CString.Ends c.readBuffer p n) :
    (CString.strpbrk c.readBuffer p blanks = none ∧
        cutBlank (c.stringAt p) = none) ∨
      ∃ k,
        CString.strpbrk c.readBuffer p blanks = some k ∧
          cutBlank (c.stringAt p) =
            some
              ((c.cutAt k).stringAt p,
                (c.cutAt k).stringAt (k + 1)) := by
  unfold CString.strpbrk cutBlank stringAt
  cases hFind :
      (CString.string c.readBuffer p).findIdx?
        (blanks.contains ·) with
  | none => exact .inl ⟨rfl, rfl⟩
  | some j =>
      have hIn :=
        (List.findIdx?_eq_some_iff_findIdx_eq.mp hFind).1
      rcases CString.string_cut hEnds hIn with
        ⟨hFront, hBack⟩
      refine .inr ⟨p + j, rfl, ?_⟩
      unfold cutAt
      rw [hFront, hBack]
      rfl

/- The slash that `strchr` finds begins the path. -/
theorem stringAt_strchr
    {c : HttpParser}
    {p n : Nat}
    (hEnds : CString.Ends c.readBuffer p n) :
    (CString.strchr c.readBuffer p 47 = none ∧
        (c.stringAt p).dropWhile (· != 47) = []) ∨
      ∃ k,
        CString.strchr c.readBuffer p 47 = some k ∧
          c.stringAt k =
            (c.stringAt p).dropWhile (· != 47) := by
  unfold CString.strchr stringAt
  cases hFind :
      (CString.string c.readBuffer p).findIdx?
        (· == 47) with
  | none =>
      refine .inl ⟨rfl, ?_⟩
      rw [List.dropWhile_eq_nil_iff]
      intro b hMem
      have hNot := List.findIdx?_eq_none_iff.mp hFind b hMem
      simpa using hNot
  | some j =>
      rcases List.findIdx?_eq_some_iff_findIdx_eq.mp hFind with
        ⟨hIn, hAt⟩
      refine .inr ⟨p + j, rfl, ?_⟩
      rw [CString.string_add hEnds (Nat.le_of_lt hIn), ← hAt,
        List.dropWhile_eq_drop_findIdx_not]
      simp only [bne, Bool.not_not]

/- The first byte of a string. -/
theorem byteAt_eq_head
    {c : HttpParser}
    {p n : Nat}
    {b : Byte}
    (hEnds : CString.Ends c.readBuffer p n)
    (hByte : b ≠ 0) :
    c.byteAt p = b ↔ (c.stringAt p).head? = some b := by
  rcases hEnds.split with ⟨text, rest, hDrop, hPlain, _⟩
  have hString : c.stringAt p = text :=
    CString.string_of_drop hDrop hPlain
  have hFirst : c.readBuffer[p]? = (text ++ 0 :: rest)[0]? := by
    rw [← hDrop, List.getElem?_drop, Nat.add_zero]
  rw [hString]
  unfold byteAt
  rw [List.getD_eq_getElem?_getD, hFirst]
  cases text with
  | nil =>
      constructor
      · intro hNul
        exact absurd hNul.symm hByte
      · intro hNone
        cases hNone
  | cons b' text => exact Option.some_inj.symm

/- The test for the slash that a path begins with. -/
theorem asks_slash
    {c : HttpParser}
    {url : Nat}
    (hUrl : c.url = some url)
    (hEnds : CString.Ends c.readBuffer url c.checkedIdx) :
    Asks
      (if c.byteAt url = 47 then
        (.noRequest, { c with checkState := .header })
      else
        (.badRequest, c))
      (if (c.stringAt url).head? = some 47 then
        some (c.stringAt url)
      else
        none) := by
  have hSlash : c.byteAt url = 47 ↔
      (c.stringAt url).head? = some 47 :=
    byteAt_eq_head hEnds (by decide)
  by_cases hFirst : c.byteAt url = 47
  · rw [if_pos hFirst, if_pos (hSlash.mp hFirst)]
    exact ⟨rfl, url, hUrl, rfl, hEnds⟩
  · rw [if_neg hFirst, if_neg (mt hSlash.mpr hFirst)]
    exact rfl

/- The end of `parse_request_line` finds the path. -/
theorem parsePath_asks
    {c : HttpParser}
    {url : Nat}
    (hUrl : c.url = some url)
    (hEnds : CString.Ends c.readBuffer url c.checkedIdx) :
    Asks (c.parsePath url) (targetPath (c.stringAt url)) := by
  unfold parsePath targetPath
  by_cases hHost :
      CString.strncaseEq (c.stringAt url) (utf8 "http://")
        7 = true
  · have hLong := CString.strncaseEq_length hHost (by decide)
    have hRest :
        CString.Ends c.readBuffer (url + 7) c.checkedIdx :=
      hEnds.of_le (Nat.add_le_add_left hLong _)
    have hDrop :
        c.stringAt (url + 7) = (c.stringAt url).drop 7 :=
      CString.string_add hEnds hLong
    simp only [if_pos hHost, ← hDrop]
    rcases stringAt_strchr hRest with
      ⟨hFind, hNone⟩ | ⟨k, hFind, hPath⟩
    · simp only [hFind, hNone]
      exact rfl
    · have hBounds := CString.strchr_bounds hFind
      have hAt : CString.Ends c.readBuffer k c.checkedIdx :=
        hRest.of_le (Nat.le_of_lt hBounds.2)
      simp only [hFind, ← hPath]
      exact asks_slash (c := { c with url := some k }) rfl hAt
  · have hEnd := asks_slash hUrl hEnds
    rw [hUrl] at hEnd
    simp only [if_neg hHost, hUrl]
    exact hEnd

/- The middle of it cuts the version off. -/
theorem parseVersion_asks
    {c : HttpParser}
    {url : Nat}
    (hUrl : c.url = some url)
    (hEnds : CString.Ends c.readBuffer url c.checkedIdx) :
    Asks (c.parseVersion url)
      (versionedPath (c.stringAt url)) := by
  unfold parseVersion versionedPath
  rcases strpbrk_cutBlank hEnds with
    ⟨hFind, hNone⟩ | ⟨k, hFind, hCut⟩
  · simp only [hFind, hNone]
    exact rfl
  · have hEnds' :
        CString.Ends (c.cutAt k).readBuffer url
          c.checkedIdx :=
      hEnds.set k
    simp only [hFind, hCut, Option.bind_some, bind]
    by_cases hHttp :
        CString.strcaseEq ((c.cutAt k).stringAt (k + 1))
          (utf8 "HTTP/1.1") = true
    · have hHttp' :
          CString.strcaseEq
            ({ c.cutAt k with
              version := some (k + 1) }.stringAt (k + 1))
            (utf8 "HTTP/1.1") = true :=
        hHttp
      rw [if_pos hHttp, if_pos hHttp']
      exact
        parsePath_asks
          (c := { c.cutAt k with version := some (k + 1) })
          hUrl hEnds'
    · have hHttp' :
          ¬CString.strcaseEq
            ({ c.cutAt k with
              version := some (k + 1) }.stringAt (k + 1))
            (utf8 "HTTP/1.1") = true :=
        hHttp
      rw [if_neg hHttp, if_neg hHttp']
      exact rfl

/-
  `parse_request_line` on a line with a blank: it answers
  `BAD_REQUEST`, or it leaves `m_url` at the path.
-/
theorem parseRequestLine_asks
    {c : HttpParser}
    {text : Nat}
    {r : HttpCode × HttpParser}
    (hEnds : CString.Ends c.readBuffer text c.checkedIdx)
    (hCall : c.parseRequestLine text = .ok r) :
    Asks r (requestPath (c.stringAt text)) := by
  unfold parseRequestLine at hCall
  unfold requestPath
  rcases strpbrk_cutBlank hEnds with
    ⟨hFind, _⟩ | ⟨k, hFind, hCut⟩
  · simp only [hFind] at hCall
    cases hCall
  · have hRest :
        CString.Ends (c.cutAt k).readBuffer (k + 1)
          c.checkedIdx :=
      (hEnds.of_le (CString.strpbrk_bounds hFind).2).set k
    simp only [hFind] at hCall
    simp only [hCut, Option.bind_some, bind]
    by_cases hGet :
        CString.strcaseEq ((c.cutAt k).stringAt text)
          (utf8 "GET") = true
    · have hGet' :
          CString.strcaseEq
            ({ c.cutAt k with
              url := some (k + 1) }.stringAt text)
            (utf8 "GET") = true :=
        hGet
      rw [if_pos hGet'] at hCall
      cases hCall
      rw [if_pos hGet]
      exact
        parseVersion_asks
          (c :=
            { c.cutAt k with
              url := some (k + 1)
              method := .get })
          rfl hRest
    · have hGet' :
          ¬CString.strcaseEq
            ({ c.cutAt k with
              url := some (k + 1) }.stringAt text)
            (utf8 "GET") = true :=
        hGet
      rw [if_neg hGet'] at hCall
      cases hCall
      rw [if_neg hGet]
      exact rfl

end HttpParser

end V2

end WebServer
