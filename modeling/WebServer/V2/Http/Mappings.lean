import WebServer.Library.Machine
import WebServer.V2.MainLoop
import WebServer.V2.Http.Counters
import WebServer.V2.Http.ReadBuffer

/-
  The files that one `http_conn` of version 2.0 maps.

  `do_request` maps a file in a worker, and `unmap` is
  called from `write()` in the main thread. Between the two
  the connection can be closed by the main thread, by the
  worker or by its timer, and the object serves the next
  connection on its descriptor. A run goes over all of these
  connections. The regions that were mapped are recorded,
  with the lengths that `munmap` was given for them.

  Key definitions include:
    * `MappingRun`
    * `MappingRun.unmap`
    * `MappingRun.Released`
    * `MappingRun.Keeps`
    * `mappingMachine`

  Key theorems include:
    * `HttpParser.processRead_fileAddress`
    * `MappingRun.Released.step`
    * `MappingRun.Released.lost`
    * `mappings_released_iff`
-/

------------------------------------------------------------
-- Who Sets `m_file_address`
------------------------------------------------------------

namespace WebServer

namespace V2

namespace HttpParser

/- `m_file_stat.st_size`. -/
def statSize
    (c : HttpParser) : Nat :=
  match c.fileStat with
  | some st => st.stSize
  | none => 0

theorem parseLineLoop_fileAddress
    (n : Nat)
    (c : HttpParser) :
    (parseLineLoop n c).2.fileAddress = c.fileAddress := by
  induction n generalizing c with
  | zero => rfl
  | succ n ih =>
      unfold parseLineLoop
      split_ifs
      · rfl
      · rfl
      · rfl
      · rfl
      · rfl
      · exact ih _

theorem parsePath_fileAddress
    (c : HttpParser)
    (url : Nat) :
    (c.parsePath url).2.fileAddress = c.fileAddress := by
  unfold parsePath
  simp only
  split
  · split_ifs <;> rfl
  · split_ifs <;> rfl

theorem parseVersion_fileAddress
    (c : HttpParser)
    (url : Nat) :
    (c.parseVersion url).2.fileAddress = c.fileAddress := by
  unfold parseVersion
  split
  · rfl
  · dsimp only
    split_ifs
    · exact parsePath_fileAddress _ url
    · rfl

theorem parseRequestLine_fileAddress
    {c c' : HttpParser}
    {text : Nat}
    {code : HttpCode}
    (hCall : c.parseRequestLine text = .ok (code, c')) :
    c'.fileAddress = c.fileAddress := by
  unfold parseRequestLine at hCall
  split at hCall
  · cases hCall
  · dsimp only at hCall
    split_ifs at hCall
    · have hSame :=
        congrArg (fun r => r.2.fileAddress)
          (Except.ok.inj hCall)
      exact hSame.symm.trans (parseVersion_fileAddress _ _)
    · cases hCall
      rfl

theorem parseHeaders_fileAddress
    (c : HttpParser)
    (text : Nat) :
    (c.parseHeaders text).2.fileAddress = c.fileAddress := by
  unfold parseHeaders
  dsimp only
  split_ifs <;> rfl

/- Only an answer of `FILE_REQUEST` sets it. -/
theorem doRequest_fileAddress
    {fs : FileSystem}
    {c c' : HttpParser}
    {code : HttpCode}
    (hCall : c.doRequest fs = .ok (code, c'))
    (hCode : code ≠ .fileRequest) :
    c'.fileAddress = c.fileAddress := by
  unfold doRequest at hCall
  split at hCall
  · cases hCall
  · simp only at hCall
    split at hCall
    · cases hCall
      rfl
    · split_ifs at hCall
      · cases hCall
        rfl
      · cases hCall
        rfl
      · cases hCall
        exact absurd rfl hCode
      · cases hCall
        exact absurd rfl hCode

end HttpParser

/- A turn that does not answer `FILE_REQUEST`. -/
def Turn.KeepsAddress
    (c : HttpParser) :
    Turn → Prop
| .returns code c' =>
    code ≠ .fileRequest → c'.fileAddress = c.fileAddress
| .again _ c' => c'.fileAddress = c.fileAddress

namespace HttpParser

/- The body of the loop, one case for each state. -/
theorem handleLine_fileAddress
    {fs : FileSystem}
    {c : HttpParser}
    {status : LineStatus}
    {turn : Turn}
    (hTurn : c.handleLine fs status = .ok turn) :
    turn.KeepsAddress c := by
  cases hState : c.checkState with
  | content =>
      rw [handleLine_of_content hState] at hTurn
      cases hTurn
  | requestLine =>
      have hNext : c.startNextLine.checkState = .requestLine :=
        hState
      unfold handleLine at hTurn
      simp only [hNext] at hTurn
      cases hCall :
          c.startNextLine.parseRequestLine c.getLine with
      | error f =>
          rw [hCall] at hTurn
          cases hTurn
      | ok r =>
          rcases r with ⟨ret, c'⟩
          have hSame := parseRequestLine_fileAddress hCall
          rw [hCall] at hTurn
          change
            (if ret = .badRequest then
              Except.ok (Turn.returns .badRequest c')
            else
              Except.ok (Turn.again status c')) =
              Except.ok turn at hTurn
          split_ifs at hTurn
          · cases hTurn
            exact fun _ => hSame
          · cases hTurn
            exact hSame
  | header =>
      have hNext : c.startNextLine.checkState = .header :=
        hState
      have hSame :=
        parseHeaders_fileAddress c.startNextLine c.getLine
      unfold handleLine at hTurn
      simp only [hNext] at hTurn
      generalize
        c.startNextLine.parseHeaders c.getLine = r
          at hTurn hSame
      rcases r with ⟨ret, c₁⟩
      simp only at hTurn hSame
      split_ifs at hTurn
      · cases hTurn
        exact fun _ => hSame
      · cases hCall : c₁.doRequest fs with
        | error f =>
            rw [hCall] at hTurn
            cases hTurn
        | ok r =>
            rw [hCall] at hTurn
            cases hTurn
            exact fun hCode =>
              (doRequest_fileAddress hCall hCode).trans hSame
      · cases hTurn
        exact hSame

/- By induction on the turns. -/
theorem processReadLoop_fileAddress
    {fs : FileSystem}
    {n : Nat}
    {status : LineStatus}
    {c c' : HttpParser}
    {code : HttpCode}
    (hCall :
      processReadLoop fs n status c = .ok (code, c'))
    (hCode : code ≠ .fileRequest) :
    c'.fileAddress = c.fileAddress := by
  induction n generalizing status c with
  | zero => cases hCall
  | succ n ih =>
      unfold processReadLoop at hCall
      have hLine :
          (if c.checkState = .content ∧ status = .lineOk then
            (status, c)
          else
            c.parseLine).2.fileAddress = c.fileAddress := by
        split_ifs
        · rfl
        · exact parseLineLoop_fileAddress _ c
      generalize
        (if c.checkState = .content ∧ status = .lineOk then
          (status, c)
        else
          c.parseLine) = r at hCall hLine
      rcases r with ⟨found, c₁⟩
      simp only at hCall hLine
      rw [← hLine]
      split_ifs at hCall
      · cases hTurn : c₁.handleLine fs found with
        | error f =>
            rw [hTurn] at hCall
            cases hCall
        | ok turn =>
            have hKeeps := handleLine_fileAddress hTurn
            rw [hTurn] at hCall
            cases turn with
            | returns code₁ c₂ =>
                cases hCall
                exact hKeeps hCode
            | again next c₂ =>
                exact (ih hCall).trans hKeeps
      · cases hCall
        rfl

/-
  `process_read` leaves `m_file_address` alone unless it
  answers `FILE_REQUEST`.
-/
theorem processRead_fileAddress
    {fs : FileSystem}
    {c c' : HttpParser}
    {code : HttpCode}
    (hCall : c.processRead fs = .ok (code, c'))
    (hCode : code ≠ .fileRequest) :
    c'.fileAddress = c.fileAddress :=
  processReadLoop_fileAddress hCall hCode

theorem readLoop_fileAddress
    (results : List RecvResult)
    (c : HttpParser) :
    (readLoop results c).2.fileAddress = c.fileAddress := by
  induction results generalizing c with
  | nil => rfl
  | cons res rest ih =>
      cases res with
      | eagain => rfl
      | closed => rfl
      | error => rfl
      | bytes data =>
          unfold readLoop
          simp only
          split_ifs
          · rfl
          · exact ih _

/- `read()` leaves it alone. -/
theorem read_fileAddress
    (c : HttpParser)
    (results : List RecvResult) :
    (c.read results).2.fileAddress = c.fileAddress := by
  unfold HttpParser.read
  split_ifs
  · rfl
  · exact readLoop_fileAddress results c

end HttpParser

end V2

end WebServer

------------------------------------------------------------
-- One Object And Its Mappings
------------------------------------------------------------

namespace WebServer

namespace V2

/-
  `m_sockfd`: -1, the descriptor of a connection that
  `cb_func` closed, or that of an open one.
-/
inductive Sockfd
| unset
| stale
| live
deriving DecidableEq, Repr

/-
  A region that `do_request` mapped, and the lengths that
  `munmap` was given for it.
-/
structure Mapping where
  length : Nat
  unmapped : List Nat
deriving DecidableEq, Repr

/- Unmapped once, with the length it was mapped with. -/
def Mapping.Freed
    (m : Mapping) : Prop :=
  m.unmapped = [m.length]

/- The bytes that `m_file_address` leads to. -/
def FileAddress.region :
    FileAddress → Option Bytes
| .mapped bytes => some bytes
| _ => none

/- `mmap` succeeded. -/
def FileAddress.isMapped
    (address : FileAddress) : Bool :=
  address.region.isSome

/-
  An `http_conn`, the registration of its descriptor, how
  often it is queued for the workers, and whether the main
  thread is in the loop of `write()`. The newest mapping is
  the first.
-/
structure MappingRun where
  parser : HttpParser
  conn : HttpConn
  sockfd : Sockfd
  interest : Option Interest
  tasks : Nat
  writing : Bool
  mappings : List Mapping

namespace MappingRun

/- An object before its first connection. -/
def start
    (parser : HttpParser)
    (conn : HttpConn) : MappingRun where
  parser := parser
  conn := conn
  sockfd := .unset
  interest := none
  tasks := 0
  writing := false
  mappings := []

/- `modfd` fails where no connection is open. -/
def modfd
    (s : MappingRun)
    (ev : Interest) : MappingRun :=
  if s.sockfd = .live then
    { s with interest := some ev }
  else
    s

/- `close_conn()`. -/
def closeConn
    (s : MappingRun) : MappingRun :=
  if s.sockfd = .unset then
    s
  else
    { s with sockfd := .unset, interest := none }

/-
  `munmap(m_file_address, m_file_stat.st_size)`. It finds
  nothing at `MAP_FAILED`.
-/
def munmap
    (s : MappingRun) : List Mapping :=
  match s.parser.fileAddress, s.mappings with
  | .mapped _, m :: rest =>
      { m with
        unmapped := m.unmapped ++ [s.parser.statSize] } ::
          rest
  | _, mappings => mappings

/- `unmap()`. -/
def unmap
    (s : MappingRun) : MappingRun :=
  { s with
    parser := { s.parser with fileAddress := .null }
    mappings := s.munmap }

/- `http_conn::init(sockfd, addr)`. -/
def accept
    (s : MappingRun) : MappingRun :=
  { s with
    parser := s.parser.init
    conn := s.conn.init
    sockfd := .live
    interest := some .epollIn }

/-
  `deal_read_event`, where `append` may find the queue full.
-/
def dealReadEvent
    (s : MappingRun)
    (results : List RecvResult)
    (queued : Bool) : MappingRun :=
  let (success, parser) := s.parser.read results
  let s := { s with parser := parser, interest := none }
  if success then
    { s with tasks := s.tasks + queued.toNat }
  else
    s.closeConn

/- What `process_read` leaves, with the region it mapped. -/
def parsed
    (s : MappingRun)
    (code : HttpCode)
    (parser : HttpParser) : MappingRun :=
  { s with
    parser := parser
    conn :=
      { s.conn with
        linger := parser.linger
        fileAddress := parser.fileAddress.region }
    mappings :=
      if code = .fileRequest ∧ parser.fileAddress.isMapped then
        ⟨parser.statSize, []⟩ :: s.mappings
      else
        s.mappings }

/- What `process_write(code)` returns. -/
def answers
    (s : MappingRun)
    (code : HttpCode)
    (parser : HttpParser) : Bool :=
  ((s.parsed code parser).conn.processWrite parser.statSize
    code).1

/- `process()`, once `process_read` answered. -/
def respond
    (s : MappingRun)
    (code : HttpCode)
    (parser : HttpParser) : MappingRun :=
  let s := s.parsed code parser
  if code = .noRequest then
    s.modfd .epollIn
  else
    let (added, conn) :=
      s.conn.processWrite s.parser.statSize code
    let s := { s with conn := conn }
    -- the `modfd` behind `close_conn` is given -1
    if added then s.modfd .epollOut else s.closeConn

/- A worker takes the object and calls `process()`. -/
def process
    (s : MappingRun)
    (fs : FileSystem) : Option MappingRun :=
  match s.parser.processRead fs with
  | .error _ => none
  | .ok (code, parser) =>
      some
        ({ s with tasks := s.tasks - 1 }.respond code parser)

/- Entering `write()`; where nothing is left it ends. -/
def dealWriteEvent
    (s : MappingRun) : MappingRun :=
  let (conn, phase) := s.conn.enterWrite
  let s := { s with conn := conn, interest := none }
  if phase = .looping then
    { s with writing := true }
  else
    { s with parser := s.parser.init }.modfd .epollIn

/- The rest of `deal_write_event` after a `writev`. -/
def afterWritev
    (s : MappingRun)
    (conn : HttpConn) :
    WritePhase → MappingRun
| .looping => { s with conn := conn }
| .waiting =>
    { s with conn := conn, writing := false }.modfd .epollOut
| .failed =>
    { s with conn := conn, writing := false }.unmap.closeConn
| .finished ret =>
    let s :=
      { s with
        conn := conn, writing := false }.unmap.modfd .epollIn
    if ret then
      { s with parser := s.parser.init }
    else
      s.closeConn

/- A turn of the loop of `write()`. -/
def writev
    (s : MappingRun)
    (res : WritevResult) : Option MappingRun := do
  let (conn, phase) ← s.conn.afterWritev res
  some (s.afterWritev conn phase)

/- `EPOLLRDHUP`, `EPOLLHUP` or `EPOLLERR` was reported. -/
def hangUp
    (s : MappingRun) : MappingRun :=
  { s with interest := none }.closeConn

/- `cb_func`, which leaves `m_sockfd` as it is. -/
def cbFunc
    (s : MappingRun) : MappingRun :=
  { s with sockfd := .stale, interest := none }

end MappingRun

/- What happens to one object. -/
inductive MappingEvent
| accept
| read (results : List RecvResult) (queued : Bool)
| process (fs : FileSystem)
| write
| writev (res : WritevResult)
| hangUp
| expire

namespace MappingRun

/-
  The main thread does one thing at a time and a worker may
  step in anywhere. What is reported was armed.
-/
def enabled
    (s : MappingRun) :
    MappingEvent → Prop
| .accept => s.writing = false ∧ s.sockfd ≠ .live
| .read _ _ =>
    s.writing = false ∧ s.interest = some .epollIn
| .process _ => 0 < s.tasks
| .write => s.writing = false ∧ s.interest = some .epollOut
| .writev (.accepted n) =>
    s.writing = true ∧ 0 < n ∧ n ≤ s.conn.described
| .writev _ => s.writing = true
| .hangUp => s.writing = false ∧ s.interest ≠ none
| .expire => s.writing = false ∧ s.sockfd = .live

instance
    (s : MappingRun) :
    ∀ e, Decidable (s.enabled e)
| .accept => inferInstanceAs (Decidable (_ ∧ _))
| .read _ _ => inferInstanceAs (Decidable (_ ∧ _))
| .process _ => inferInstanceAs (Decidable (_ < _))
| .write => inferInstanceAs (Decidable (_ ∧ _))
| .writev (.accepted _) => inferInstanceAs (Decidable (_ ∧ _))
| .writev .eagain => inferInstanceAs (Decidable (_ = _))
| .writev .error => inferInstanceAs (Decidable (_ = _))
| .hangUp => inferInstanceAs (Decidable (_ ∧ _))
| .expire => inferInstanceAs (Decidable (_ ∧ _))

def step
    (s : MappingRun) :
    MappingEvent → Option MappingRun
| .accept => some s.accept
| .read results queued =>
    some (s.dealReadEvent results queued)
| .process fs => s.process fs
| .write => some s.dealWriteEvent
| .writev res => s.writev res
| .hangUp => some s.hangUp
| .expire => some s.cbFunc

end MappingRun

/- One object over all the connections that it serves. -/
def mappingMachine : Machine MappingRun MappingEvent where
  enabled := MappingRun.enabled
  step := MappingRun.step

instance
    (s : MappingRun)
    (e : MappingEvent) :
    Decidable (mappingMachine.enabled s e) :=
  inferInstanceAs (Decidable (s.enabled e))

end V2

end WebServer

------------------------------------------------------------
-- Released Mappings
------------------------------------------------------------

namespace WebServer

namespace V2

namespace MappingRun

/- The region that `m_file_address` leads to. -/
def held
    (s : MappingRun) : Option Mapping :=
  if s.parser.fileAddress.isMapped then
    s.mappings.head?
  else
    none

/- The regions that it does not lead to, or no longer. -/
def others
    (s : MappingRun) : List Mapping :=
  if s.parser.fileAddress.isMapped then
    s.mappings.tail
  else
    s.mappings

/-
  A region that `m_file_address` no longer leads to was
  unmapped once, with its own length. The one that it leads
  to is still mapped, and its connection is open.
-/
structure Released
    (s : MappingRun) : Prop where
  freed : ∀ m ∈ s.others, m.Freed
  held_open :
    ∀ m, s.held = some m →
      m.unmapped = [] ∧ s.sockfd = .live

/-
  An answer of `process_read` that loses no region: no other
  file is mapped while one is held, a file is mapped only
  for an open connection, and the connection is not closed
  while a region is held.
-/
structure KeepsAnswer
    (s : MappingRun)
    (code : HttpCode)
    (parser : HttpParser) : Prop where
  file : code = .fileRequest → s.held = none
  mapped :
    code = .fileRequest →
      parser.fileAddress.isMapped → s.sockfd = .live
  answered :
    code ≠ .noRequest →
      s.answers code parser = false → s.held = none

/-
  A step that loses no region: one that is held is unmapped
  with its own length, and before the connection is closed.
-/
def Keeps
    (s : MappingRun) :
    MappingEvent → Prop
| .accept => True
| .read results _ =>
    (s.parser.read results).1 = false → s.held = none
| .process fs =>
    ∀ code parser,
      s.parser.processRead fs = .ok (code, parser) →
        s.KeepsAnswer code parser
| .write => True
| .writev res =>
    ∀ conn phase,
      s.conn.afterWritev res = some (conn, phase) →
        phase ≠ .looping → phase ≠ .waiting →
          ∀ m, s.held = some m → m.length = s.parser.statSize
| .hangUp => s.held = none
| .expire => s.held = none

end MappingRun

end V2

end WebServer

------------------------------------------------------------
-- What The Calls Leave Alone
------------------------------------------------------------

namespace WebServer

namespace V2

namespace MappingRun

variable {s t : MappingRun}

/- `m_file_address` and the regions are as they were. -/
structure SameRegions
    (s t : MappingRun) : Prop where
  address : t.parser.fileAddress = s.parser.fileAddress
  mappings : t.mappings = s.mappings

theorem SameRegions.held
    (h : s.SameRegions t) :
    t.held = s.held := by
  unfold MappingRun.held
  rw [h.address, h.mappings]

theorem SameRegions.others
    (h : s.SameRegions t) :
    t.others = s.others := by
  unfold MappingRun.others
  rw [h.address, h.mappings]

theorem SameRegions.modfd
    (h : s.SameRegions t)
    (ev : Interest) :
    s.SameRegions (t.modfd ev) := by
  unfold MappingRun.modfd
  split_ifs
  · exact ⟨h.address, h.mappings⟩
  · exact h

@[simp] theorem modfd_sockfd
    (s : MappingRun)
    (ev : Interest) :
    (s.modfd ev).sockfd = s.sockfd := by
  unfold modfd
  split_ifs <;> rfl

theorem SameRegions.closeConn
    (h : s.SameRegions t) :
    s.SameRegions t.closeConn := by
  unfold MappingRun.closeConn
  split_ifs
  · exact h
  · exact ⟨h.address, h.mappings⟩

@[simp] theorem closeConn_sockfd
    (s : MappingRun) :
    s.closeConn.sockfd = .unset := by
  unfold closeConn
  split_ifs with hUnset
  · exact hUnset
  · rfl

theorem dealReadEvent_same
    (s : MappingRun)
    (results : List RecvResult)
    (queued : Bool) :
    s.SameRegions (s.dealReadEvent results queued) := by
  have hRead :=
    HttpParser.read_fileAddress s.parser results
  unfold dealReadEvent
  dsimp only
  split_ifs
  · exact ⟨hRead, rfl⟩
  · exact SameRegions.closeConn ⟨hRead, rfl⟩

/- The descriptor is closed where reading fails. -/
theorem dealReadEvent_sockfd
    (s : MappingRun)
    (results : List RecvResult)
    (queued : Bool) :
    (s.dealReadEvent results queued).sockfd =
      if (s.parser.read results).1 then
        s.sockfd
      else
        .unset := by
  unfold dealReadEvent
  dsimp only
  split_ifs
  · rfl
  · exact closeConn_sockfd _

theorem dealWriteEvent_same
    (s : MappingRun) :
    s.SameRegions s.dealWriteEvent := by
  unfold dealWriteEvent
  dsimp only
  split_ifs
  · exact ⟨rfl, rfl⟩
  · refine SameRegions.modfd ?_ _
    exact ⟨rfl, rfl⟩

theorem dealWriteEvent_sockfd
    (s : MappingRun) :
    s.dealWriteEvent.sockfd = s.sockfd := by
  unfold dealWriteEvent
  dsimp only
  split_ifs
  · rfl
  · exact modfd_sockfd _ _

theorem respond_same
    (s : MappingRun)
    (code : HttpCode)
    (parser : HttpParser) :
    (s.parsed code parser).SameRegions
      (s.respond code parser) := by
  unfold respond
  dsimp only
  split_ifs
  · refine SameRegions.modfd ?_ _
    exact ⟨rfl, rfl⟩
  · refine SameRegions.modfd ?_ _
    exact ⟨rfl, rfl⟩
  · exact SameRegions.closeConn ⟨rfl, rfl⟩

/- It is closed where `process_write` fails. -/
theorem respond_sockfd
    (s : MappingRun)
    (code : HttpCode)
    (parser : HttpParser) :
    (s.respond code parser).sockfd =
      if code ≠ .noRequest ∧
          s.answers code parser = false then
        .unset
      else
        s.sockfd := by
  unfold respond
  dsimp only
  by_cases hNone : code = .noRequest
  · rw [if_pos hNone, if_neg fun hNot => hNot.1 hNone]
    exact modfd_sockfd _ _
  · rw [if_neg hNone]
    change
      MappingRun.sockfd
          (if s.answers code parser = true then _ else _) =
        _
    cases hAdded : s.answers code parser with
    | true =>
        rw [if_pos rfl, if_neg fun hNot => nomatch hNot.2]
        exact modfd_sockfd _ _
    | false =>
        rw [if_neg Bool.false_ne_true, if_pos ⟨hNone, rfl⟩]
        exact closeConn_sockfd _

/- A turn of `write()` that goes on, or waits. -/
theorem afterWritev_same
    (s : MappingRun)
    (conn : HttpConn)
    {phase : WritePhase}
    (hPhase : phase = .looping ∨ phase = .waiting) :
    s.SameRegions (s.afterWritev conn phase) ∧
      (s.afterWritev conn phase).sockfd = s.sockfd := by
  rcases hPhase with rfl | rfl
  · exact ⟨⟨rfl, rfl⟩, rfl⟩
  · refine ⟨SameRegions.modfd ?_ _, modfd_sockfd _ _⟩
    exact ⟨rfl, rfl⟩

/- The others call `unmap()`. -/
theorem afterWritev_unmaps
    (s : MappingRun)
    (conn : HttpConn)
    {phase : WritePhase}
    (hLooping : phase ≠ .looping)
    (hWaiting : phase ≠ .waiting) :
    s.unmap.SameRegions (s.afterWritev conn phase) := by
  have hUnmap :
      s.unmap.SameRegions
        { s with conn := conn, writing := false }.unmap :=
    ⟨rfl, rfl⟩
  cases phase with
  | looping => exact absurd rfl hLooping
  | waiting => exact absurd rfl hWaiting
  | failed => exact hUnmap.closeConn
  | finished ret =>
      have hArmed := hUnmap.modfd .epollIn
      cases ret with
      | true => exact ⟨hArmed.address, hArmed.mappings⟩
      | false => exact hArmed.closeConn

/- Where the pointer leads, in terms of the record. -/
theorem others_of_held_none
    (h : s.held = none) :
    s.others = s.mappings := by
  unfold held at h
  unfold others
  split_ifs at h ⊢
  · rw [List.head?_eq_none_iff.mp h, List.tail_nil]
  · rfl

theorem mappings_of_held
    {m : Mapping}
    (h : s.held = some m) :
    s.mappings = m :: s.others := by
  unfold held at h
  unfold others
  split_ifs at h ⊢
  exact List.eq_cons_of_mem_head? h

theorem unmap_held
    (s : MappingRun) :
    s.unmap.held = none :=
  rfl

/- `unmap()` is of the region that is held. -/
theorem unmap_others
    (s : MappingRun) :
    s.unmap.others =
      match s.held with
      | some m =>
          { m with
            unmapped := m.unmapped ++ [s.parser.statSize] } ::
              s.others
      | none => s.others := by
  show s.munmap = _
  unfold munmap held others
  cases s.parser.fileAddress with
  | null => rfl
  | mapFailed => rfl
  | mapped bytes =>
      cases s.mappings <;> rfl

end MappingRun

end V2

end WebServer

------------------------------------------------------------
-- Steps
------------------------------------------------------------

namespace WebServer

namespace V2

namespace MappingRun

variable {s t : MappingRun}

/- Nothing is mapped before the first connection. -/
theorem released_start
    (parser : HttpParser)
    (conn : HttpConn) :
    (start parser conn).Released where
  freed := by
    intro m hMem
    unfold others at hMem
    split_ifs at hMem <;> cases hMem
  held_open := by
    intro m hHeld
    unfold held at hHeld
    split_ifs at hHeld
    cases hHeld

/- Unless a region is held, the connection may be closed. -/
theorem Released.of_same
    (h : s.Released)
    (hSame : s.SameRegions t)
    (hOpen : s.held ≠ none → t.sockfd = s.sockfd) :
    t.Released where
  freed := by
    rw [hSame.others]
    exact h.freed
  held_open := by
    intro m hHeld
    rw [hSame.held] at hHeld
    rw [hOpen (by rw [hHeld]; exact Option.some_ne_none m)]
    exact h.held_open m hHeld

/- Where a region is held, it may not. -/
theorem not_released_of_closed
    (hHeld : s.held ≠ none)
    (hClosed : s.sockfd ≠ .live) :
    ¬ s.Released := by
  intro h
  rcases Option.ne_none_iff_exists'.mp hHeld with ⟨m, hSome⟩
  exact hClosed (h.held_open m hSome).2

/- `unmap()` with the length of the region. -/
theorem Released.unmap
    (h : s.Released)
    (hLength :
      ∀ m, s.held = some m → m.length = s.parser.statSize) :
    s.unmap.Released where
  freed := by
    rw [unmap_others]
    cases hHeld : s.held with
    | none => exact h.freed
    | some m =>
        have hFirst : m.unmapped = [] :=
          (h.held_open m hHeld).1
        intro m' hMem
        rcases List.mem_cons.mp hMem with rfl | hOld
        · unfold Mapping.Freed
          rw [hFirst, hLength m hHeld]
          rfl
        · exact h.freed m' hOld
  held_open := by
    intro m hHeld
    cases hHeld

/- And with another one. -/
theorem Released.lost_unmap
    (h : s.Released)
    {m : Mapping}
    (hHeld : s.held = some m)
    (hLength : m.length ≠ s.parser.statSize) :
    ∃ m' ∈ s.unmap.others, ¬ m'.Freed := by
  have hFirst : m.unmapped = [] :=
    (h.held_open m hHeld).1
  rw [unmap_others, hHeld]
  refine ⟨_, List.mem_cons_self, ?_⟩
  unfold Mapping.Freed
  rw [hFirst]
  intro hSame
  exact hLength (List.head_eq_of_cons_eq hSame).symm

/- A turn of the loop of `write()`. -/
theorem Released.afterWritev
    (h : s.Released)
    (conn : HttpConn)
    {phase : WritePhase}
    (hLength :
      phase ≠ .looping → phase ≠ .waiting →
        ∀ m, s.held = some m →
          m.length = s.parser.statSize) :
    (s.afterWritev conn phase).Released := by
  by_cases hStays : phase = .looping ∨ phase = .waiting
  · rcases s.afterWritev_same conn hStays with
      ⟨hSame, hOpen⟩
    exact h.of_same hSame fun _ => hOpen
  · rcases not_or.mp hStays with ⟨hLooping, hWaiting⟩
    exact
      (h.unmap (hLength hLooping hWaiting)).of_same
        (s.afterWritev_unmaps conn hLooping hWaiting)
        fun hNot => absurd s.unmap_held hNot

/- An answer other than `FILE_REQUEST` maps nothing. -/
theorem parsed_same
    {code : HttpCode}
    {parser : HttpParser}
    (hCode : code ≠ .fileRequest)
    (hAddress :
      parser.fileAddress = s.parser.fileAddress) :
    s.SameRegions (s.parsed code parser) where
  address := hAddress
  mappings := if_neg fun hNot => hCode hNot.1

/- After a `FILE_REQUEST` all older regions are others. -/
theorem others_parsed_file
    (s : MappingRun)
    (parser : HttpParser) :
    (s.parsed .fileRequest parser).others = s.mappings := by
  unfold others parsed
  dsimp only
  cases hMapped : parser.fileAddress.isMapped with
  | true => simp
  | false => simp

/- What is held then was just mapped. -/
theorem held_parsed_file
    (s : MappingRun)
    (parser : HttpParser) :
    (s.parsed .fileRequest parser).held =
      if parser.fileAddress.isMapped then
        some ⟨parser.statSize, []⟩
      else
        none := by
  unfold held parsed
  dsimp only
  cases hMapped : parser.fileAddress.isMapped with
  | true => simp
  | false => simp

/- `process_write(FILE_REQUEST)` does not fail. -/
theorem respond_file_sockfd
    (s : MappingRun)
    (parser : HttpParser) :
    (s.respond .fileRequest parser).sockfd = s.sockfd := by
  rw [respond_sockfd, if_neg]
  rintro ⟨_, hFailed⟩
  cases hFailed

/- A worker answers `FILE_REQUEST`. -/
theorem Released.respond_file
    (h : s.Released)
    {parser : HttpParser}
    (hHeld : s.held = none)
    (hOpen :
      parser.fileAddress.isMapped → s.sockfd = .live) :
    (s.respond .fileRequest parser).Released := by
  have hSame := s.respond_same .fileRequest parser
  constructor
  · rw [hSame.others, others_parsed_file,
      ← others_of_held_none hHeld]
    exact h.freed
  · intro m hNew
    rw [hSame.held, held_parsed_file] at hNew
    split_ifs at hNew with hMapped
    rcases Option.some.inj hNew with rfl
    refine ⟨rfl, ?_⟩
    rw [respond_file_sockfd]
    exact hOpen hMapped

/- A worker answers anything else. -/
theorem Released.respond_other
    (h : s.Released)
    {code : HttpCode}
    {parser : HttpParser}
    (hCode : code ≠ .fileRequest)
    (hAddress :
      parser.fileAddress = s.parser.fileAddress)
    (hHeld :
      code ≠ .noRequest →
        s.answers code parser = false → s.held = none) :
    (s.respond code parser).Released := by
  have hParsed := parsed_same hCode hAddress
  have hSame := s.respond_same code parser
  have hBoth : s.SameRegions (s.respond code parser) :=
    ⟨hSame.address.trans hParsed.address,
      hSame.mappings.trans hParsed.mappings⟩
  refine h.of_same hBoth fun hSome => ?_
  rw [respond_sockfd, if_neg]
  rintro ⟨hAnswered, hFailed⟩
  exact hSome (hHeld hAnswered hFailed)

end MappingRun

end V2

end WebServer

------------------------------------------------------------
-- Runs
------------------------------------------------------------

namespace WebServer

namespace V2

namespace MappingRun

variable {s t : MappingRun}

/- A worker's step, as one answer of `process_read`. -/
theorem process_eq_some
    {fs : FileSystem}
    (hStep : s.process fs = some t) :
    ∃ code parser,
      s.parser.processRead fs = .ok (code, parser) ∧
        { s with tasks := s.tasks - 1 }.respond code parser =
          t := by
  unfold process at hStep
  cases hCall : s.parser.processRead fs with
  | error f =>
      rw [hCall] at hStep
      cases hStep
  | ok r =>
      rcases r with ⟨code, parser⟩
      rw [hCall] at hStep
      exact ⟨code, parser, rfl, Option.some.inj hStep⟩

/- A worker's step where nothing is lost. -/
theorem Released.process
    (h : s.Released)
    {fs : FileSystem}
    (hKeeps : s.Keeps (.process fs))
    (hStep : s.process fs = some t) :
    t.Released := by
  rcases process_eq_some hStep with
    ⟨code, parser, hCall, rfl⟩
  have hAnswer := hKeeps code parser hCall
  have hSame :
      Released { s with tasks := s.tasks - 1 } :=
    ⟨h.freed, h.held_open⟩
  by_cases hCode : code = .fileRequest
  · subst hCode
    exact
      hSame.respond_file (hAnswer.file rfl)
        (hAnswer.mapped rfl)
  · exact
      hSame.respond_other hCode
        (HttpParser.processRead_fileAddress hCall hCode)
        hAnswer.answered

/- What every step that keeps its regions preserves. -/
theorem Released.step
    (h : s.Released)
    {e : MappingEvent}
    (hEnabled : mappingMachine.enabled s e)
    (hKeeps : s.Keeps e)
    (hStep : mappingMachine.step s e = some t) :
    t.Released := by
  cases e with
  | accept =>
      cases hStep
      refine h.of_same ⟨rfl, rfl⟩ fun hSome => ?_
      exact
        absurd h
          (not_released_of_closed hSome hEnabled.2)
  | read results queued =>
      cases hStep
      refine h.of_same (s.dealReadEvent_same results queued)
        fun hSome => ?_
      rw [dealReadEvent_sockfd, if_pos]
      exact
        (Bool.not_eq_false _).mp fun hFailed =>
          hSome (hKeeps hFailed)
  | process fs => exact h.process hKeeps hStep
  | write =>
      cases hStep
      exact
        h.of_same s.dealWriteEvent_same fun _ =>
          s.dealWriteEvent_sockfd
  | writev res =>
      rcases Option.bind_eq_some_iff.mp hStep with
        ⟨⟨conn, phase⟩, hAfter, hEq⟩
      rcases Option.some.inj hEq with rfl
      exact h.afterWritev conn (hKeeps conn phase hAfter)
  | hangUp =>
      cases hStep
      exact
        h.of_same (SameRegions.closeConn ⟨rfl, rfl⟩)
          fun hSome => absurd hKeeps hSome
  | expire =>
      cases hStep
      exact
        h.of_same ⟨rfl, rfl⟩ fun hSome => absurd hKeeps hSome

/- An answer after which no region is lost. -/
theorem Released.keepsAnswer
    (h : s.Released)
    {code : HttpCode}
    {parser : HttpParser}
    (hAddress :
      code ≠ .fileRequest →
        parser.fileAddress = s.parser.fileAddress)
    (hLeft : (s.respond code parser).Released) :
    s.KeepsAnswer code parser := by
  have hSame := s.respond_same code parser
  constructor
  · rintro rfl
    cases hHeld : s.held with
    | none => rfl
    | some m =>
        have hMem :
            m ∈ (s.respond .fileRequest parser).others := by
          rw [hSame.others, others_parsed_file,
            mappings_of_held hHeld]
          exact List.mem_cons_self
        have hFreed : m.unmapped = [m.length] :=
          hLeft.freed m hMem
        rw [(h.held_open m hHeld).1] at hFreed
        cases hFreed
  · rintro rfl hMapped
    have hNew :
        (s.respond .fileRequest parser).held =
          some ⟨parser.statSize, []⟩ := by
      rw [hSame.held, held_parsed_file, if_pos hMapped]
    have hOpen := (hLeft.held_open _ hNew).2
    rw [respond_file_sockfd] at hOpen
    exact hOpen
  · intro hAnswered hFailed
    have hCode : code ≠ .fileRequest := by
      rintro rfl
      cases hFailed
    have hHeld :
        (s.respond code parser).held = s.held :=
      hSame.held.trans
        (parsed_same hCode (hAddress hCode)).held
    by_contra hSome
    refine not_released_of_closed ?_ ?_ hLeft
    · rw [hHeld]
      exact hSome
    · rw [respond_sockfd, if_pos ⟨hAnswered, hFailed⟩]
      exact nofun

/- A worker's step that loses one. -/
theorem Released.lost_process
    (h : s.Released)
    {fs : FileSystem}
    (hNot : ¬ s.Keeps (.process fs)) :
    ∃ t, s.process fs = some t ∧ ¬ t.Released := by
  unfold MappingRun.process
  cases hCall : s.parser.processRead fs with
  | error f =>
      apply absurd _ hNot
      intro code parser hOk
      rw [hCall] at hOk
      cases hOk
  | ok r =>
      rcases r with ⟨code, parser⟩
      refine ⟨_, rfl, ?_⟩
      intro hLeft
      apply hNot
      intro code' parser' hOk
      rw [hCall] at hOk
      cases hOk
      have hSame :
          Released { s with tasks := s.tasks - 1 } :=
        ⟨h.freed, h.held_open⟩
      have hAnswer :=
        hSame.keepsAnswer
          (HttpParser.processRead_fileAddress hCall) hLeft
      exact ⟨hAnswer.file, hAnswer.mapped, hAnswer.answered⟩

/- A turn of `write()` that does. -/
theorem Released.lost_writev
    (h : s.Released)
    {res : WritevResult}
    (hNot : ¬ s.Keeps (.writev res)) :
    ∃ t, s.writev res = some t ∧ ¬ t.Released := by
  unfold MappingRun.writev
  cases hAfter : s.conn.afterWritev res with
  | none =>
      apply absurd _ hNot
      intro conn phase hOk
      rw [hAfter] at hOk
      cases hOk
  | some r =>
      rcases r with ⟨conn, phase⟩
      refine ⟨_, rfl, ?_⟩
      intro hLeft
      apply hNot
      intro conn' phase' hOk hLooping hWaiting m hHeld
      rw [hAfter] at hOk
      cases hOk
      by_contra hLength
      rcases h.lost_unmap hHeld hLength with
        ⟨m', hMem, hLost⟩
      have hSame :=
        s.afterWritev_unmaps conn hLooping hWaiting
      rw [← hSame.others] at hMem
      exact hLost (hLeft.freed m' hMem)

/- What a step without the condition loses. -/
theorem Released.lost
    (h : s.Released)
    {e : MappingEvent}
    (hNot : ¬ s.Keeps e) :
    ∃ t, mappingMachine.step s e = some t ∧ ¬ t.Released := by
  cases e with
  | accept => exact absurd trivial hNot
  | read results queued =>
      rcases Classical.not_imp.mp hNot with
        ⟨hFailed, hSome⟩
      refine ⟨_, rfl, not_released_of_closed ?_ ?_⟩
      · rw [(s.dealReadEvent_same results queued).held]
        exact hSome
      · rw [dealReadEvent_sockfd, hFailed]
        exact nofun
  | process fs => exact h.lost_process hNot
  | write => exact absurd trivial hNot
  | writev res => exact h.lost_writev hNot
  | hangUp =>
      refine ⟨_, rfl, not_released_of_closed ?_ ?_⟩
      · have hSame : s.SameRegions s.hangUp :=
          SameRegions.closeConn ⟨rfl, rfl⟩
        rw [hSame.held]
        exact hNot
      · unfold hangUp
        rw [closeConn_sockfd]
        exact nofun
  | expire =>
      exact ⟨_, rfl, not_released_of_closed hNot nofun⟩

end MappingRun

/-
  In every state of a run each region that was mapped is
  released as it should be if and only if no step of the run
  loses one.
-/
theorem mappings_released_iff
    (parser : HttpParser)
    (conn : HttpConn)
    (es : List MappingEvent) :
    mappingMachine.Always MappingRun.Released
        (.start parser conn) es ↔
      mappingMachine.StepsMeet MappingRun.Keeps
        (.start parser conn) es :=
  Machine.always_iff_stepsMeet
    (fun _ h => h)
    (fun _ _ _ h hEnabled hKeeps hStep =>
      h.step hEnabled hKeeps hStep)
    (fun _ _ h _ hNot => h.lost hNot)
    (MappingRun.released_start parser conn)

/-
  A file is asked for and mapped, and the client is gone
  before it is sent.
-/
def goneEarly : List MappingEvent :=
  [.accept, .read [.bytes smallRequest.flatten] true,
    .process oneFile, .hangUp]

/- The region is still mapped when the connection is closed. -/
theorem goneEarly_leaves :
    (mappingMachine.exec (.start unusedParser freshConn)
        goneEarly).map
      (fun s => (s.held, s.sockfd)) =
      some (some ⟨5, []⟩, .unset) := by
  decide +kernel

theorem mapping_never_unmapped :
    ¬ ∀ (parser : HttpParser) (conn : HttpConn)
        (es : List MappingEvent),
      mappingMachine.Always MappingRun.Released
        (.start parser conn) es := by
  intro hAll
  rcases Option.map_eq_some_iff.mp goneEarly_leaves with
    ⟨s, hExec, hLeft⟩
  rcases Prod.mk.inj hLeft with ⟨hHeld, hClosed⟩
  have hReleased :=
    (hAll unusedParser freshConn goneEarly).reached
      (Machine.reaches_of_exec hExec)
  have hOpen := (hReleased.held_open _ hHeld).2
  rw [hClosed] at hOpen
  cases hOpen

end V2

end WebServer
