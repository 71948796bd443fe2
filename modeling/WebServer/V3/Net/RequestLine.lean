import WebServer.V3.Net.ParseURI

/-
  What `parseURI` makes of its buffer.

  Every position that a request line is cut at was found in
  it, so `parseURI` never raises. What a line reads as does
  not depend on the connection.

  Key definitions include:
    * `ReadsAs`

  Key theorems include:
    * `parseRequestLine_cases`
    * `HttpData.parseURI_of_cr`
    * `HttpData.parseURI_of_no_cr`
-/

------------------------------------------------------------
-- Request Lines
------------------------------------------------------------

namespace WebServer

namespace V3

open StdString

namespace HttpData

/- Keep what a request line says in the members. -/
def setLine
    (d : HttpData)
    (method : HttpMethod)
    (fileName : Bytes)
    (version : HttpVersion) : HttpData :=
  { d with
    method := method
    fileName := fileName
    httpVersion := version }

end HttpData

/- A request line is accepted, as this method and so on. -/
def ReadsAs
    (line : Bytes)
    (method : HttpMethod)
    (fileName : Bytes)
    (version : HttpVersion) : Prop :=
  ∀ d : HttpData,
    d.parseRequestLine line =
      .ok (.success, d.setLine method fileName version)

/- A request line is answered with an error. -/
def Refused
    (line : Bytes) : Prop :=
  ∀ d : HttpData,
    ∃ method fileName,
      d.parseRequestLine line =
        .ok
          (.error, d.setLine method fileName d.httpVersion)

theorem ReadsAs.unique
    {line fileName fileName' : Bytes}
    {method method' : HttpMethod}
    {version version' : HttpVersion}
    (h : ReadsAs line method fileName version)
    (h' : ReadsAs line method' fileName' version') :
    method = method' ∧
      fileName = fileName' ∧ version = version' := by
  have hSame := (h .new).symm.trans (h' .new)
  simp only [HttpData.setLine, Except.ok.injEq,
    Prod.mk.injEq, HttpData.mk.injEq, true_and,
    and_true] at hSame
  exact ⟨hSame.1, hSame.2.2, hSame.2.1⟩

theorem ReadsAs.not_refused
    {line fileName : Bytes}
    {method : HttpMethod}
    {version : HttpVersion}
    (h : ReadsAs line method fileName version) :
    ¬ Refused line := by
  intro hRefused
  rcases hRefused .new with ⟨_, _, hError⟩
  rw [h] at hError
  cases hError

theorem targetName_ok
    (line : Bytes)
    (pos : Nat) :
    ∃ name,
      HttpData.targetName line
          (HttpData.findSlash line (some pos))
          (HttpData.findBlank line
            (HttpData.findSlash line (some pos))) =
        .ok name := by
  cases hSlash : HttpData.findSlash line (some pos) with
  | none => exact ⟨_, rfl⟩
  | some slash =>
      have hSmall : slash + 1 ≤ line.length :=
        findChar_lt hSlash
      cases hBlank :
          HttpData.findBlank line (some slash) with
      | none =>
          simp only [HttpData.targetName, substr,
            if_pos hSmall]
          exact ⟨_, rfl⟩
      | some blank =>
          simp only [HttpData.targetName, substr,
            if_pos hSmall]
          split_ifs
          · exact ⟨_, rfl⟩
          · exact ⟨_, rfl⟩

theorem versionText_ok
    (line : Bytes)
    (pos : Option Nat) :
    ∃ text,
      HttpData.versionText line
          (HttpData.findSlash line pos) =
        .ok text := by
  cases hSlash : HttpData.findSlash line pos with
  | none =>
      simp only [HttpData.versionText, substr,
        if_pos (Nat.zero_le _)]
      split_ifs
      · exact ⟨_, rfl⟩
      · exact ⟨_, rfl⟩
  | some slash =>
      have hSmall : slash + 1 ≤ line.length := by
        rcases Option.bind_eq_some_iff.mp hSlash with
          ⟨_, _, hFind⟩
        exact findChar_lt hFind
      simp only [HttpData.versionText, substr,
        if_pos hSmall]
      split_ifs
      · exact ⟨_, rfl⟩
      · exact ⟨_, rfl⟩

namespace HttpData

/- The version that three bytes spell. -/
def versionOf
    (ver : Bytes) : Option HttpVersion :=
  if ver = utf8 "1.0" then
    some .http10
  else if ver = utf8 "1.1" then
    some .http11
  else
    none

/- The slash that the version is looked for behind. -/
def versionSlash
    (requestLine : Bytes)
    (pos : Nat) : Option Nat :=
  findSlash requestLine
    (findBlank requestLine
      (findSlash requestLine (some pos)))

/- The version found, the name of the method being at `pos`. -/
def readVersion
    (requestLine : Bytes)
    (pos : Nat) : Option HttpVersion :=
  match versionText requestLine
      (versionSlash requestLine pos) with
  | .ok (some ver) => versionOf ver
  | _ => none

/-
  A line is accepted if a version is found. What is kept of
  it does not depend on the connection.
-/
theorem parseTarget_eq
    (line : Bytes)
    (method : HttpMethod)
    (pos : Nat) :
    ∃ name, ∀ d : HttpData,
      d.parseTarget line method pos =
        .ok
          (match readVersion line pos with
          | some version =>
              (.success, d.setLine method name version)
          | none =>
              (.error,
                d.setLine method name d.httpVersion)) := by
  rcases targetName_ok line pos with ⟨name, hName⟩
  rcases
    versionText_ok line
      (findBlank line (findSlash line (some pos))) with
    ⟨text, hText⟩
  refine ⟨name, fun d => ?_⟩
  simp only [parseTarget, readVersion, versionSlash, hName,
    hText, bind, Except.bind]
  cases text with
  | none => rfl
  | some ver =>
      simp only [versionOf]
      split_ifs
      · rfl
      · rfl
      · rfl

end HttpData

/- Every line is accepted or answered with an error. -/
theorem parseRequestLine_cases
    (line : Bytes) :
    (∃ method fileName version,
      ReadsAs line method fileName version) ∨
      Refused line := by
  cases hMethod : HttpData.findMethod line with
  | none =>
      right
      intro d
      refine ⟨d.method, d.fileName, ?_⟩
      simp only [HttpData.parseRequestLine, hMethod]
      rfl
  | some found =>
      rcases found with ⟨method, pos⟩
      rcases HttpData.parseTarget_eq line method pos with
        ⟨name, hTarget⟩
      have hCall : ∀ d : HttpData,
          d.parseRequestLine line =
            d.parseTarget line method pos := by
        intro d
        simp only [HttpData.parseRequestLine, hMethod]
      cases hVersion : HttpData.readVersion line pos with
      | none =>
          refine .inr fun d => ⟨method, name, ?_⟩
          rw [hCall, hTarget, hVersion]
      | some version =>
          refine .inl ⟨method, name, version, fun d => ?_⟩
          rw [hCall, hTarget, hVersion]

namespace HttpData

/-
  With a CR in the buffer, the bytes in front of it are the
  request line, and the bytes behind it stay.
-/
theorem cutLine_of_cr
    {d : HttpData}
    {line rest : Bytes}
    (hPos : d.nowReadPos ≤ line.length)
    (hBuffer : d.inBuffer = line ++ 13 :: rest)
    (hLine : 13 ∉ line) :
    d.cutLine = .ok (line, { d with inBuffer := rest }) := by
  have hDrop :
      d.inBuffer.drop d.nowReadPos =
        line.drop d.nowReadPos ++ 13 :: rest := by
    rw [hBuffer, List.drop_append_of_le_length hPos]
  have hFind := findChar_of_drop hDrop
    (fun hMem => hLine (List.mem_of_mem_drop hMem))
  rw [List.length_drop, Nat.add_sub_cancel' hPos] at hFind
  rcases d.cutLine_cases with ⟨hNone, _⟩ | ⟨pos, hSome, hCut⟩
  · rw [hFind] at hNone
    cases hNone
  · rw [hFind] at hSome
    cases hSome
    rw [hCut, hBuffer, List.take_left, ← List.drop_drop,
      List.drop_left]
    rfl

theorem parseURI_of_cr
    {d : HttpData}
    {line rest : Bytes}
    (hPos : d.nowReadPos = 0)
    (hBuffer : d.inBuffer = line ++ 13 :: rest)
    (hLine : 13 ∉ line) :
    d.parseURI =
      { d with inBuffer := rest }.parseRequestLine line := by
  have hStart : d.nowReadPos ≤ line.length := by
    rw [hPos]
    exact Nat.zero_le _
  simp only [parseURI, cutLine_of_cr hStart hBuffer hLine]
  rfl

/- Without a CR the whole buffer is the request line. -/
theorem parseURI_of_no_cr
    {d : HttpData}
    (hPos : d.nowReadPos = 0)
    (hNone : 13 ∉ d.inBuffer) :
    d.parseURI = d.parseRequestLine d.inBuffer := by
  have hFind : findChar d.inBuffer 13 d.nowReadPos = none := by
    rw [hPos]
    exact findChar_eq_none_iff.mpr hNone
  rcases d.cutLine_cases with ⟨_, hCut⟩ | ⟨pos, hSome, _⟩
  · simp only [parseURI, hCut]
    rfl
  · rw [hFind] at hSome
    cases hSome

end HttpData

end V3

end WebServer
