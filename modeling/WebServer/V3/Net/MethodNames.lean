import Mathlib.Data.List.TakeWhile
import WebServer.V3.Net.Request

/-
  How the request line of a well-formed request is read in
  version 3.0.

  `parseURI` looks for the name of a method anywhere in the
  line, and takes the target to begin at the first slash
  after it. So a name in the target counts as well, and it
  is what counts where the line has lost its first byte.

  Key definitions include:
    * `fileOf`
    * `Request.NamedFirst`
    * `Request.NamedAgain`
    * `Request.LineMethod`

  Key theorems include:
    * `readsAs_of_target`
    * `refused_of_no_blank`
    * `Request.readsAs_line_iff`
    * `Request.lineMethod_iff`
    * `Request.readsAs_drop_iff`
-/

------------------------------------------------------------
-- Targets
------------------------------------------------------------

namespace WebServer

namespace V3

open StdString

/- The file that a target asks for, without its slash. -/
def fileOf
    (target : Bytes) : Bytes :=
  if target = [] then
    utf8 "index.html"
  else
    target.takeWhile (· != 63)

/-
  After the name of the method there is a slash, a target, a
  blank, another slash and the version.
-/
theorem HttpData.parseTarget_of_target
    {line pre target mid : Bytes}
    {version : HttpVersion}
    {pos : Nat}
    (hDrop :
      line.drop pos =
        pre ++ 47 :: (target ++ 32 ::
          (mid ++ 47 :: version.text)))
    (hPre : 47 ∉ pre)
    (hTarget : 32 ∉ target)
    (hMid : 47 ∉ mid)
    (d : HttpData)
    (method : HttpMethod) :
    d.parseTarget line method pos =
      .ok
        (.success,
          d.setLine method (fileOf target) version) := by
  have hLen := congrArg List.length hDrop
  simp only [List.length_drop, List.length_append,
    List.length_cons] at hLen
  have hPos : pos ≤ line.length := by omega
  have hThree : version.text.length = 3 := by
    cases version <;> rfl
  have hSlash :
      HttpData.findSlash line (some pos) =
        some (pos + pre.length) :=
    findChar_of_drop hDrop hPre
  have hAtSlash :
      line.drop (pos + pre.length) =
        47 :: (target ++ 32 :: (mid ++ 47 :: version.text)) :=
      by
    rw [← List.drop_drop, hDrop, List.drop_left]
  have hAtBlank :
      line.drop (pos + pre.length + (target.length + 1)) =
        32 :: (mid ++ 47 :: version.text) := by
    rw [← List.drop_drop, hAtSlash, List.drop_succ_cons,
      List.drop_left]
  have hBlank :
      HttpData.findBlank line (some (pos + pre.length)) =
        some (pos + pre.length + (target.length + 1)) := by
    apply findChar_of_drop (a := 47 :: target) hAtSlash
    rw [List.mem_cons, not_or]
    exact ⟨by decide, hTarget⟩
  have hSlash' :
      HttpData.findSlash line
          (some (pos + pre.length + (target.length + 1))) =
        some
          (pos + pre.length + (target.length + 1) +
            (mid.length + 1)) := by
    apply findChar_of_drop (a := 32 :: mid) hAtBlank
    rw [List.mem_cons, not_or]
    exact ⟨by decide, hMid⟩
  have hName :
      HttpData.targetName line (some (pos + pre.length))
          (some (pos + pre.length + (target.length + 1))) =
        .ok (fileOf target) := by
    have hCut :
        substr line (pos + pre.length + 1) target.length =
          .ok target := by
      unfold substr
      rw [if_pos (by omega), ← List.drop_drop, hAtSlash,
        List.drop_succ_cons, List.drop_zero, List.take_left]
    have hSize :
        pos + pre.length + (target.length + 1) -
            (pos + pre.length) - 1 =
          target.length := by
      omega
    unfold HttpData.targetName fileOf
    simp only
    by_cases hNil : target = []
    · rw [if_neg (by simp [hNil]), if_pos hNil]
    · have hLong := List.length_pos_iff.mpr hNil
      rw [if_pos (by omega), if_neg hNil, hSize, hCut]
      rfl
  have hVersion :
      HttpData.versionText line
          (some
            (pos + pre.length + (target.length + 1) +
              (mid.length + 1))) =
        .ok (some version.text) := by
    have hCut :
        substr line
            (pos + pre.length + (target.length + 1) +
              (mid.length + 1) + 1) 3 =
          .ok version.text := by
      unfold substr
      rw [if_pos (by omega), ← List.drop_drop,
        ← List.drop_drop, hAtBlank, List.drop_succ_cons,
        List.drop_left, List.drop_succ_cons, List.drop_zero,
        List.take_of_length_le (by omega)]
    unfold HttpData.versionText
    simp only
    rw [if_neg (by omega), hCut]
    rfl
  simp only [HttpData.parseTarget, hSlash, hBlank, hName,
    hSlash', hVersion, bind, Except.bind]
  cases version <;> rfl

/- A line like that in which the method is found there. -/
theorem readsAs_of_target
    {line pre target mid : Bytes}
    {method : HttpMethod}
    {version : HttpVersion}
    {pos : Nat}
    (hMethod :
      HttpData.findMethod line = some (method, pos))
    (hDrop :
      line.drop pos =
        pre ++ 47 :: (target ++ 32 ::
          (mid ++ 47 :: version.text)))
    (hPre : 47 ∉ pre)
    (hTarget : 32 ∉ target)
    (hMid : 47 ∉ mid) :
    ReadsAs line method (fileOf target) version := by
  intro d
  simp only [HttpData.parseRequestLine, hMethod]
  exact
    HttpData.parseTarget_of_target hDrop hPre hTarget hMid d
      method

/-
  After the name of the method there is a slash, and no
  blank behind it: the version is looked for at the very
  start of the line.
-/
theorem refused_of_no_blank
    {line pre target : Bytes}
    {method : HttpMethod}
    {pos : Nat}
    (hMethod :
      HttpData.findMethod line = some (method, pos))
    (hDrop : line.drop pos = pre ++ 47 :: target)
    (hPre : 47 ∉ pre)
    (hTarget : 32 ∉ target)
    (hStart :
      ∀ version : HttpVersion,
        line.take 3 ≠ version.text) :
    Refused line := by
  have hLen := congrArg List.length hDrop
  simp only [List.length_drop, List.length_append,
    List.length_cons] at hLen
  have hPos : pos ≤ line.length := by omega
  have hSlash :
      HttpData.findSlash line (some pos) =
        some (pos + pre.length) :=
    findChar_of_drop hDrop hPre
  have hBlank :
      HttpData.findBlank line (some (pos + pre.length)) =
        none := by
    apply findChar_of_not_mem_drop
    rw [← List.drop_drop, hDrop, List.drop_left,
      List.mem_cons, not_or]
    exact ⟨by decide, hTarget⟩
  rcases targetName_ok line pos with ⟨name, hName⟩
  rw [hSlash, hBlank] at hName
  have hNone : HttpData.findSlash line none = none := rfl
  intro d
  refine ⟨method, name, ?_⟩
  simp only [HttpData.parseRequestLine,
    HttpData.parseTarget, hMethod, hSlash, hBlank, hName,
    hNone, HttpData.versionText, bind, Except.bind]
  split_ifs with hShort
  · rfl
  · have hOld : line.take 3 ≠ utf8 "1.0" := hStart .http10
    have hNew : line.take 3 ≠ utf8 "1.1" := hStart .http11
    simp only [substr_front, hOld, hNew, if_false]
    rfl

end V3

end WebServer

------------------------------------------------------------
-- Request Lines And Names
------------------------------------------------------------

namespace WebServer

namespace V3

open StdString

/- A name is found in the first word or in the target. -/
theorem find_name
    {name : Bytes}
    (hName :
      name = utf8 "GET" ∨ name = utf8 "POST" ∨
        name = utf8 "HEAD")
    (word target : Bytes)
    (version : HttpVersion) :
    find name
        (word ++ 32 :: (target ++ 32 ::
          (utf8 "HTTP" ++ 47 :: version.text))) =
      (find name word).or
        ((find name target).map
          (· + (word.length + 1))) := by
  have hPat : 32 ∉ name ∧ name ≠ [] := by
    rcases hName with rfl | rfl | rfl <;> decide
  have hLast :
      find name (utf8 "HTTP" ++ 47 :: version.text) =
        none := by
    rcases hName with rfl | rfl | rfl <;>
      cases version <;> decide +kernel
  rw [find_append_cons hPat.1 hPat.2,
    find_append_cons hPat.1 hPat.2, hLast, Option.map_none,
    Option.or_none]

namespace Request

variable (r : Request)

/- The request line with another word in front. -/
def lineWith
    (word : Bytes) : Bytes :=
  word ++ 32 :: (r.target ++ 32 ::
    (utf8 "HTTP" ++ 47 :: r.version.text))

theorem line_eq :
    r.line = r.lineWith r.method.text := by
  simp [line, lineWith, utf8]
  rfl

theorem drop_line_eq :
    r.line.drop 1 = r.lineWith (r.method.text.drop 1) := by
  rw [line_eq]
  cases r.method <;> rfl

theorem target_plain :
    32 ∉ r.target := by
  intro hMem
  unfold target at hMem
  rcases List.mem_append.mp hMem with hMem | hMem
  · rcases List.mem_cons.mp hMem with hEq | hMem
    · cases hEq
    · exact (r.path_plain 32 hMem).1 rfl
  · cases hQuery : r.query with
    | none =>
        rw [hQuery] at hMem
        cases hMem
    | some q =>
        rw [hQuery] at hMem
        rcases List.mem_cons.mp hMem with hEq | hMem
        · cases hEq
        · exact (r.query_plain q hQuery 32 hMem).1 rfl

variable {r}

/- A name is found in the first word or in the target. -/
theorem find_lineWith
    {name : Bytes}
    (hName :
      name = utf8 "GET" ∨ name = utf8 "POST" ∨
        name = utf8 "HEAD")
    (word : Bytes) :
    find name (r.lineWith word) =
      (find name word).or
        ((find name r.target).map
          (· + (word.length + 1))) :=
  find_name hName word r.target r.version

theorem drop_lineWith
    {k : Nat}
    (hSmall : k ≤ r.target.length)
    (word : Bytes) :
    (r.lineWith word).drop (k + (word.length + 1)) =
      r.target.drop k ++ 32 ::
        (utf8 "HTTP" ++ 47 :: r.version.text) := by
  have hFront :
      (r.lineWith word).drop (word.length + 1) =
        r.target ++ 32 ::
          (utf8 "HTTP" ++ 47 :: r.version.text) := by
    unfold lineWith
    rw [← List.drop_drop, List.drop_left]
    rfl
  rw [Nat.add_comm, ← List.drop_drop, hFront,
    List.drop_append_of_le_length hSmall]

/- A name in the target with a slash behind it. -/
theorem readsAs_lineWith
    {word pre target : Bytes}
    {method : HttpMethod}
    {k : Nat}
    (hMethod :
      HttpData.findMethod (r.lineWith word) =
        some (method, k + (word.length + 1)))
    (hSmall : k ≤ r.target.length)
    (hSlash : r.target.drop k = pre ++ 47 :: target)
    (hPre : 47 ∉ pre) :
    ReadsAs (r.lineWith word) method (fileOf target)
      r.version := by
  have hDrop := r.drop_lineWith hSmall word
  rw [hSlash, List.append_assoc, List.cons_append] at hDrop
  refine
    readsAs_of_target hMethod hDrop hPre ?_ (by decide)
  intro hMem
  apply r.target_plain
  apply List.mem_of_mem_drop (i := k)
  rw [hSlash]
  simp [hMem]

/- A name in the target without a slash behind it. -/
theorem refused_lineWith
    {word : Bytes}
    {method : HttpMethod}
    {k : Nat}
    (hMethod :
      HttpData.findMethod (r.lineWith word) =
        some (method, k + (word.length + 1)))
    (hSmall : k ≤ r.target.length)
    (hSlash : 47 ∉ r.target.drop k)
    (hWord :
      ∀ version : HttpVersion,
        (r.lineWith word).take 3 ≠ version.text) :
    Refused (r.lineWith word) := by
  have hDrop :
      (r.lineWith word).drop (k + (word.length + 1)) =
        (r.target.drop k ++ 32 :: utf8 "HTTP") ++
          47 :: r.version.text := by
    rw [r.drop_lineWith hSmall word]
    simp
  refine refused_of_no_blank hMethod hDrop ?_ ?_ hWord
  · rw [List.mem_append, not_or]
    exact ⟨hSlash, by decide⟩
  · cases r.version <;> decide +kernel

/- The file of a request is that of its target. -/
theorem fileOf_target
    (r : Request) :
    fileOf (r.target.drop 1) = r.fileName := by
  have hPlain : ∀ b ∈ r.path, (b != 63) = true := by
    intro b hMem
    simpa using (r.path_plain b hMem).2.2.2
  unfold fileName target
  cases hQuery : r.query with
  | none =>
      unfold fileOf
      simp only [List.append_nil, List.drop_succ_cons,
        List.drop_zero, List.cons.injEq, true_and]
      split_ifs with hNil
      · rfl
      · exact List.takeWhile_eq_self_iff.mpr hPlain
  | some q =>
      unfold fileOf
      rw [if_neg (by simp), if_neg (by simp),
        List.cons_append, List.drop_succ_cons,
        List.drop_zero, List.takeWhile_append_of_pos hPlain]
      simp

/-
  The request line of a `HEAD` request has the name of no
  other method in it.
-/
def NamedFirst
    (r : Request) : Prop :=
  r.method = .head →
    find (utf8 "GET") r.target = none ∧
      find (utf8 "POST") r.target = none

/-
  The first name of a method in the target is that of the
  request, and the first slash after it is followed by the
  name of the same file.
-/
def NamedAgain
    (r : Request) : Prop :=
  ∃ k pre target,
    HttpData.firstMethod r.target = some (r.method, k) ∧
      r.target.drop k = pre ++ 47 :: target ∧
      47 ∉ pre ∧
      fileOf target = r.fileName

end Request

end V3

end WebServer

------------------------------------------------------------
-- Requests Read As Themselves
------------------------------------------------------------

namespace WebServer

namespace V3

open StdString

/- The method of a line is that of the name found in it. -/
theorem ReadsAs.findMethod
    {line fileName : Bytes}
    {method : HttpMethod}
    {version : HttpVersion}
    (h : ReadsAs line method fileName version) :
    ∃ pos, HttpData.findMethod line = some (method, pos) := by
  have hCall := h .new
  cases hFind : HttpData.findMethod line with
  | none =>
      simp only [HttpData.parseRequestLine, hFind] at hCall
      cases hCall
  | some found =>
      rcases found with ⟨other, pos⟩
      rcases targetName_ok line pos with ⟨name, hName⟩
      rcases
        versionText_ok line
          (HttpData.findBlank line
            (HttpData.findSlash line (some pos))) with
        ⟨text, hText⟩
      refine ⟨pos, ?_⟩
      simp only [HttpData.parseRequestLine,
        HttpData.parseTarget, hFind, hName, hText, bind,
        Except.bind] at hCall
      cases text with
      | none => cases hCall
      | some ver =>
          simp only at hCall
          split_ifs at hCall <;> cases hCall <;> rfl

namespace Request

variable {r : Request}

theorem firstMethod_get
    (r : Request) :
    HttpData.firstMethod (r.lineWith (utf8 "GET")) =
      some (.get, 0) := by
  unfold HttpData.firstMethod
  rw [find_lineWith (.inl rfl)]
  rfl

/- The first word is `HEAD`. -/
theorem firstMethod_head
    (r : Request) :
    HttpData.firstMethod (r.lineWith (utf8 "HEAD")) =
      match find (utf8 "GET") r.target with
      | some k => some (.get, k + 5)
      | none =>
          match find (utf8 "POST") r.target with
          | some k => some (.post, k + 5)
          | none => some (.head, 0) := by
  have hGet : find (utf8 "GET") (utf8 "HEAD") = none := by
    decide
  have hPost : find (utf8 "POST") (utf8 "HEAD") = none := by
    decide
  have hHead : find (utf8 "HEAD") (utf8 "HEAD") = some 0 := by
    decide
  unfold HttpData.firstMethod
  rw [find_lineWith (.inl rfl), find_lineWith (.inr (.inl rfl)),
    find_lineWith (.inr (.inr rfl)), hGet, hPost, hHead]
  cases find (utf8 "GET") r.target with
  | some k => rfl
  | none =>
      cases find (utf8 "POST") r.target with
      | some k => rfl
      | none => rfl

/- The first word is not the name of a method. -/
theorem firstMethod_of_no_name
    {word : Bytes}
    (hGet : find (utf8 "GET") word = none)
    (hPost : find (utf8 "POST") word = none)
    (hHead : find (utf8 "HEAD") word = none)
    (r : Request) :
    HttpData.firstMethod (r.lineWith word) =
      (HttpData.firstMethod r.target).map fun found =>
        (found.1, found.2 + (word.length + 1)) := by
  unfold HttpData.firstMethod
  rw [find_lineWith (.inl rfl), find_lineWith (.inr (.inl rfl)),
    find_lineWith (.inr (.inr rfl)), hGet, hPost, hHead]
  simp only [Option.none_or]
  cases find (utf8 "GET") r.target with
  | some k => rfl
  | none =>
      cases find (utf8 "POST") r.target with
      | some k => rfl
      | none =>
          cases find (utf8 "HEAD") r.target with
          | some k => rfl
          | none => rfl

theorem firstMethod_le
    {line : Bytes}
    {method : HttpMethod}
    {k : Nat}
    (hFind : HttpData.firstMethod line = some (method, k)) :
    k ≤ line.length := by
  unfold HttpData.firstMethod at hFind
  split at hFind
  · rename_i hGet
    cases hFind
    exact find_le hGet
  · split at hFind
    · rename_i hPost
      cases hFind
      exact find_le hPost
    · split at hFind
      · rename_i hHead
        cases hFind
        exact find_le hHead
      · cases hFind

/- A short line is searched exactly, also behind its start. -/
theorem findMethod_line
    (hShort : r.line.length < 2 ^ 31) :
    HttpData.findMethod (r.lineWith r.method.text) =
      HttpData.firstMethod (r.lineWith r.method.text) := by
  rw [← line_eq]
  exact HttpData.findMethod_of_short hShort

theorem findMethod_drop_line
    (hShort : r.line.length < 2 ^ 31) :
    HttpData.findMethod
        (r.lineWith (r.method.text.drop 1)) =
      HttpData.firstMethod
        (r.lineWith (r.method.text.drop 1)) := by
  rw [← drop_line_eq]
  apply HttpData.findMethod_of_short
  rw [List.length_drop]
  omega

/- The name of the method is the first word of the line. -/
theorem readsAs_line
    (hMethod :
      HttpData.findMethod (r.lineWith r.method.text) =
        some (r.method, 0)) :
    ReadsAs r.line r.method r.fileName r.version := by
  have hDrop :
      (r.lineWith r.method.text).drop 0 =
        (r.method.text ++ [32]) ++ 47 ::
          (r.target.drop 1 ++ 32 ::
            (utf8 "HTTP" ++ 47 :: r.version.text)) := by
    simp [lineWith, target]
  rw [line_eq, ← r.fileOf_target]
  refine readsAs_of_target hMethod hDrop ?_ ?_ (by decide)
  · cases r.method <;> decide +kernel
  · exact fun hMem =>
      r.target_plain (List.mem_of_mem_drop hMem)

/-
  A well-formed request line is read as itself when it has
  no other name in it that comes first.
-/
theorem readsAs_line_iff
    (hShort : r.line.length < 2 ^ 31) :
    ReadsAs r.line r.method r.fileName r.version ↔
      r.NamedFirst := by
  have hLine := r.line_eq
  have hExact := findMethod_line hShort
  have hRead := r.readsAs_line
  unfold NamedFirst
  cases hCase : r.method with
  | post => exact absurd hCase r.method_ne
  | get =>
      rw [hCase] at hRead hExact
      refine ⟨fun _ hHead => (by cases hHead), fun _ => ?_⟩
      exact hRead (hExact.trans r.firstMethod_get)
  | head =>
      rw [hCase] at hRead hExact hLine
      have hFind := hExact.trans r.firstMethod_head
      constructor
      · intro h _
        rcases h.findMethod with ⟨pos, hFound⟩
        rw [hLine, hFind] at hFound
        cases hGet : find (utf8 "GET") r.target with
        | some k =>
            rw [hGet] at hFound
            cases hFound
        | none =>
            cases hPost : find (utf8 "POST") r.target with
            | some k =>
                rw [hGet, hPost] at hFound
                cases hFound
            | none => exact ⟨rfl, rfl⟩
      · intro h
        rcases h rfl with ⟨hGet, hPost⟩
        apply hRead
        rw [hFind, hGet, hPost]

/-
  The method that the request line is read with: that of the
  request, or another one that the target of a `HEAD`
  request names in front of a slash.
-/
def LineMethod
    (r : Request)
    (method : HttpMethod) : Prop :=
  (r.NamedFirst ∧ method = r.method) ∨
    (r.method = .head ∧
      method ≠ .head ∧
      ∃ k,
        HttpData.firstMethod r.target = some (method, k) ∧
          47 ∈ r.target.drop k)

/- Another name in the target of a `HEAD` request. -/
theorem firstMethod_head_of_target
    {method : HttpMethod}
    {k : Nat}
    (hOther : method ≠ .head)
    (hFound :
      HttpData.firstMethod r.target = some (method, k)) :
    HttpData.firstMethod (r.lineWith (utf8 "HEAD")) =
      some (method, k + ((utf8 "HEAD").length + 1)) := by
  unfold HttpData.firstMethod at hFound
  rw [firstMethod_head]
  cases hGet : find (utf8 "GET") r.target with
  | some j =>
      rw [hGet] at hFound
      cases hFound
      rfl
  | none =>
      rw [hGet] at hFound
      cases hPost : find (utf8 "POST") r.target with
      | some j =>
          rw [hPost] at hFound
          cases hFound
          rfl
      | none =>
          rw [hPost] at hFound
          cases hHead : find (utf8 "HEAD") r.target with
          | some j =>
              rw [hHead] at hFound
              cases hFound
              exact absurd rfl hOther
          | none =>
              rw [hHead] at hFound
              cases hFound

/- What a well-formed request line can be read as. -/
theorem lineMethod_iff
    (hShort : r.line.length < 2 ^ 31)
    (method : HttpMethod) :
    r.LineMethod method ↔
      ∃ fileName version,
        ReadsAs r.line method fileName version := by
  have hStart : ∀ version : HttpVersion,
      (r.lineWith (utf8 "HEAD")).take 3 ≠ version.text := by
    have hWord : utf8 "HEAD" = [72, 69, 65, 68] := by decide
    intro version hEq
    have hVersion : version.text.head? = some 49 := by
      cases version <;> decide
    rw [← hEq, lineWith, hWord] at hVersion
    simp at hVersion
  constructor
  · rintro (⟨hFirst, rfl⟩ | ⟨hHead, hOther, k, hFound, hSlash⟩)
    · exact ⟨_, _, (readsAs_line_iff hShort).mpr hFirst⟩
    · rcases List.eq_append_cons_of_mem hSlash with
        ⟨pre, target, hSplit, hPre⟩
      have hExact := findMethod_line hShort
      rw [hHead] at hExact
      rw [line_eq, hHead]
      exact
        ⟨_, _,
          readsAs_lineWith
            (hExact.trans
              (firstMethod_head_of_target hOther hFound))
            (firstMethod_le hFound) hSplit hPre⟩
  · rintro ⟨fileName, version, hReads⟩
    by_cases hFirst : r.NamedFirst
    · have hOwn := (readsAs_line_iff hShort).mpr hFirst
      exact .inl ⟨hFirst, (hReads.unique hOwn).1⟩
    · have hHead : r.method = .head := by
        by_contra hNot
        exact hFirst fun hIs => absurd hIs hNot
      have hExact := findMethod_line hShort
      rw [hHead] at hExact
      rw [line_eq, hHead] at hReads
      rcases hReads.findMethod with ⟨pos, hFound⟩
      -- the name found is the one in the target
      have hTarget :
          ∃ k, HttpData.firstMethod r.target =
              some (method, k) ∧ method ≠ .head := by
        rw [hExact, HttpMethod.text, firstMethod_head]
          at hFound
        unfold HttpData.firstMethod
        cases hGet : find (utf8 "GET") r.target with
        | some k =>
            rw [hGet] at hFound
            cases hFound
            exact ⟨k, rfl, by decide⟩
        | none =>
            cases hPost : find (utf8 "POST") r.target with
            | some k =>
                rw [hGet, hPost] at hFound
                cases hFound
                exact ⟨k, rfl, by decide⟩
            | none =>
                exact absurd (fun _ => ⟨hGet, hPost⟩) hFirst
      rcases hTarget with ⟨k, hName, hOther⟩
      refine .inr ⟨hHead, hOther, k, hName, ?_⟩
      by_contra hSlash
      exact
        hReads.not_refused
          (refused_lineWith
            (hExact.trans
              (firstMethod_head_of_target hOther hName))
            (firstMethod_le hName) hSlash hStart)

/-
  A request line that has lost its first byte is read as the
  same request only if the target names it again.
-/
theorem readsAs_drop_iff
    (hShort : r.line.length < 2 ^ 31) :
    ReadsAs (r.line.drop 1) r.method r.fileName r.version ↔
      r.NamedAgain := by
  obtain ⟨word, hWord⟩ :
      ∃ word, word = r.method.text.drop 1 := ⟨_, rfl⟩
  have hNoName :
      find (utf8 "GET") word = none ∧
        find (utf8 "POST") word = none ∧
          find (utf8 "HEAD") word = none := by
    rw [hWord]
    cases hCase : r.method with
    | post => exact absurd hCase r.method_ne
    | get => decide
    | head => decide
  have hStart : ∀ version : HttpVersion,
      (r.lineWith word).take 3 ≠ version.text := by
    have hGet : HttpMethod.get.text.drop 1 = [69, 84] := by
      decide
    have hHead :
        HttpMethod.head.text.drop 1 = [69, 65, 68] := by
      decide
    intro version hEq
    have hVersion : version.text.head? = some 49 := by
      cases version <;> decide
    rw [← hEq, hWord, lineWith] at hVersion
    cases hCase : r.method with
    | post => exact absurd hCase r.method_ne
    | get =>
        rw [hCase, hGet] at hVersion
        simp at hVersion
    | head =>
        rw [hCase, hHead] at hVersion
        simp at hVersion
  have hFind :
      HttpData.findMethod (r.lineWith word) =
        (HttpData.firstMethod r.target).map fun found =>
          (found.1, found.2 + (word.length + 1)) := by
    rw [hWord, findMethod_drop_line hShort, ← hWord]
    exact
      firstMethod_of_no_name hNoName.1 hNoName.2.1
        hNoName.2.2 r
  rw [drop_line_eq, ← hWord]
  constructor
  · intro h
    rcases h.findMethod with ⟨pos, hFound⟩
    rw [hFind] at hFound
    rcases Option.map_eq_some_iff.mp hFound with
      ⟨⟨method, k⟩, hTarget, hEq⟩
    cases hEq
    rw [hTarget] at hFind
    have hSmall := firstMethod_le hTarget
    by_cases hSlash : 47 ∈ r.target.drop k
    · rcases List.eq_append_cons_of_mem hSlash with
        ⟨pre, target, hSplit, hPre⟩
      have hOwn := readsAs_lineWith hFind hSmall hSplit hPre
      exact
        ⟨k, pre, target, hTarget, hSplit, hPre,
          (hOwn.unique h).2.1⟩
    · exact
        absurd (refused_lineWith hFind hSmall hSlash hStart)
          h.not_refused
  · rintro ⟨k, pre, target, hTarget, hSplit, hPre, hFile⟩
    rw [hTarget] at hFind
    rw [← hFile]
    exact
      readsAs_lineWith hFind (firstMethod_le hTarget) hSplit
        hPre

end Request

end V3

end WebServer
