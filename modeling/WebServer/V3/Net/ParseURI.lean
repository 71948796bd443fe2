import WebServer.V3.Net.HttpData

/-
  Reading the request line in version 3.0
  (`HttpData::parseURI`).

  The source keeps positions in a `size_t` and tests them
  with `< 0`, which never holds, so a position not found
  goes on as `npos`: adding one to it gives zero, and
  subtracting from it a large number. Below, each search
  that may give `npos` is split into its two cases, and each
  case is what the unsigned arithmetic comes to.

  The positions of the names of methods go through `int`
  variables, so they wrap in a line of two gigabytes or
  more. In a shorter one the method is the first name found.

  Key definitions include:
    * `HttpData.findMethod`
    * `HttpData.parseRequestLine`
    * `HttpData.parseURI`
    * `HttpData.firstMethod`

  Key theorems include:
    * `HttpData.cutLine_cases`
    * `HttpData.findMethod_of_short`
-/

------------------------------------------------------------
-- The Request Line
------------------------------------------------------------

namespace WebServer

namespace V3

open StdString

namespace HttpData

/- `int pos = request_line.find(name)`. -/
def findName
    (name requestLine : Bytes) : Int :=
  match find name requestLine with
  | some pos => toInt32 pos
  | none => toInt32 (2 ^ 64 - 1)

/- The method, and where the search for the slash starts. -/
def findMethod
    (requestLine : Bytes) : Option (HttpMethod × Nat) :=
  let posGet := findName (utf8 "GET") requestLine
  let posPost := findName (utf8 "POST") requestLine
  let posHead := findName (utf8 "HEAD") requestLine
  if 0 ≤ posGet then
    some (.get, posGet.toNat)
  else if 0 ≤ posPost then
    some (.post, posPost.toNat)
  else if 0 ≤ posHead then
    some (.head, posHead.toNat)
  else
    none

/- `find("/", pos)`, where `pos` may be `npos`. -/
def findSlash
    (requestLine : Bytes)
    (pos : Option Nat) : Option Nat :=
  pos.bind (findChar requestLine (UInt8.ofNat 47))

/- `find(' ', pos)`, where `pos` may be `npos`. -/
def findBlank
    (requestLine : Bytes)
    (pos : Option Nat) : Option Nat :=
  pos.bind (findChar requestLine (UInt8.ofNat 32))

/-
  `fileName_` from the slash at `pos` and the blank at
  `_pos`. Every name is cut at a question mark, since a
  position is never negative.
-/
def targetName
    (requestLine : Bytes)
    (pos blank : Option Nat) : Except Fault Bytes :=
  match pos, blank with
  | some pos, some blank =>
      if blank - pos > 1 then do
        let name ←
          substr requestLine (pos + 1) (blank - pos - 1)
        .ok (name.takeWhile (· != UInt8.ofNat 63))
      else
        .ok (utf8 "index.html")
  -- no blank: the difference is huge
  | some pos, none => do
      let name ←
        substr requestLine (pos + 1) requestLine.length
      .ok (name.takeWhile (· != UInt8.ofNat 63))
  -- no slash, hence no blank after it: the difference is 0
  | none, _ => .ok (utf8 "index.html")

/-
  The three bytes that should be the version, after the
  slash at `pos`; `none` when the line is too short.
-/
def versionText
    (requestLine : Bytes)
    (pos : Option Nat) : Except Fault (Option Bytes) :=
  match pos with
  | some pos =>
      if requestLine.length - pos ≤ 3 then
        .ok none
      else do
        let ver ← substr requestLine (pos + 1) 3
        .ok (some ver)
  -- no slash: `size - npos` is `size + 1`, `npos + 1` is 0
  | none =>
      if requestLine.length + 1 ≤ 3 then
        .ok none
      else do
        let ver ← substr requestLine 0 3
        .ok (some ver)

/- `parseURI`, once the method and its place are known. -/
def parseTarget
    (d : HttpData)
    (requestLine : Bytes)
    (method : HttpMethod)
    (pos : Nat) : Except Fault (UriState × HttpData) := do
  let d := { d with method := method }
  let slash := findSlash requestLine (some pos)
  let blank := findBlank requestLine slash
  let fileName ← targetName requestLine slash blank
  let d := { d with fileName := fileName }
  let versionSlash := findSlash requestLine blank
  match ← versionText requestLine versionSlash with
  | none => .ok (.error, d)
  | some ver =>
      if ver = utf8 "1.0" then
        .ok (.success, { d with httpVersion := .http10 })
      else if ver = utf8 "1.1" then
        .ok (.success, { d with httpVersion := .http11 })
      else
        .ok (.error, d)

/- The part of `parseURI` after the line was cut off. -/
def parseRequestLine
    (d : HttpData)
    (requestLine : Bytes) :
    Except Fault (UriState × HttpData) :=
  match findMethod requestLine with
  | none => .ok (.error, d)
  | some (method, pos) =>
      d.parseTarget requestLine method pos

/-
  Take the request line off the buffer. Without a CR the
  position is `npos`: the whole buffer is the request line,
  and it also stays where it is.
-/
def cutLine
    (d : HttpData) : Except Fault (Bytes × HttpData) :=
  let str := d.inBuffer
  match findChar str (UInt8.ofNat 13) d.nowReadPos with
  | none => .ok (str, d)
  | some pos => do
      let requestLine ← substr str 0 pos
      let rest ←
        if str.length > pos + 1 then
          substr str (pos + 1) str.length
        else
          .ok []
      .ok (requestLine, { d with inBuffer := rest })

/- `parseURI()`. `PARSE_URI_AGAIN` is never returned. -/
def parseURI
    (d : HttpData) :
    Except Fault (UriState × HttpData) := do
  let (requestLine, d) ← d.cutLine
  d.parseRequestLine requestLine

end HttpData

end V3

end WebServer

------------------------------------------------------------
-- Lines That Are Cut Off
------------------------------------------------------------

namespace WebServer

namespace V3

open StdString

namespace HttpData

/-
  The line goes up to the first CR from `nowReadPos_` on,
  and what is behind the CR stays. Without a CR the line is
  the whole buffer, which stays as well.
-/
theorem cutLine_cases
    (d : HttpData) :
    (findChar d.inBuffer 13 d.nowReadPos = none ∧
        d.cutLine = .ok (d.inBuffer, d)) ∨
      ∃ pos,
        findChar d.inBuffer 13 d.nowReadPos = some pos ∧
          d.cutLine =
            .ok
              (d.inBuffer.take pos,
                { d with
                  inBuffer := d.inBuffer.drop (pos + 1) }) := by
  have hCr : UInt8.ofNat 13 = 13 := rfl
  simp only [cutLine, hCr]
  cases hFind : findChar d.inBuffer 13 d.nowReadPos with
  | none => exact .inl ⟨rfl, rfl⟩
  | some pos =>
      refine .inr ⟨pos, rfl, ?_⟩
      simp only [substr_front, bind, Except.bind]
      split_ifs with hMore
      · rw [substr_suffix (Nat.le_of_lt hMore)]
      · rw [List.drop_eq_nil_of_le (Nat.le_of_not_lt hMore)]

end HttpData

end V3

end WebServer

------------------------------------------------------------
-- Lines Below Two Gigabytes
------------------------------------------------------------

namespace WebServer

namespace V3

open StdString

namespace HttpData

/- The method, and where its name stands in the line. -/
def firstMethod
    (requestLine : Bytes) : Option (HttpMethod × Nat) :=
  match find (utf8 "GET") requestLine with
  | some posGet => some (.get, posGet)
  | none =>
      match find (utf8 "POST") requestLine with
      | some posPost => some (.post, posPost)
      | none =>
          match find (utf8 "HEAD") requestLine with
          | some posHead => some (.head, posHead)
          | none => none

/- A position in a short line fits an `int`. -/
theorem findName_of_short
    {line : Bytes}
    (name : Bytes)
    (hShort : line.length < 2 ^ 31) :
    findName name line =
      match find name line with
      | some pos => (pos : Int)
      | none => -1 := by
  unfold findName
  cases hFind : find name line with
  | none => decide
  | some pos =>
      have hLe := find_le hFind
      apply toInt32_of_isInt32
      unfold IsInt32
      omega

theorem findMethod_of_short
    {line : Bytes}
    (hShort : line.length < 2 ^ 31) :
    findMethod line = firstMethod line := by
  unfold findMethod firstMethod
  simp only [findName_of_short _ hShort]
  cases find (utf8 "GET") line with
  | some pos => simp
  | none =>
      cases find (utf8 "POST") line with
      | some pos => simp
      | none =>
          cases find (utf8 "HEAD") line with
          | some pos => simp
          | none => rfl

end HttpData

end V3

end WebServer
