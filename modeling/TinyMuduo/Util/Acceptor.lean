import TinyMuduo.Lib.Descriptors
import TinyMuduo.Lib.Transition

/-!
# `Acceptor::NewConnection` and the reserve descriptor

The acceptor keeps one descriptor on `/dev/null`. When the table is full it gives
that number up, takes the connection with it, closes the connection and opens
`/dev/null` again, so that a full table does not leave the listening socket
readable for ever. The ledger keeps what the acceptor did to the table, and the
file behind each number tells the connections apart: a number is used again, a
connection is not.
-/

namespace TinyMuduo

open Transition Descriptors

inductive File where
  | listening
  /-- `/dev/null` -/
  | reserve
  /-- the `n`-th connection a client made -/
  | connection (n : ℕ)
  | other
  deriving DecidableEq, Repr

inductive Errno where
  | EMFILE
  | EAGAIN
  deriving DecidableEq, Repr

inductive FileAct where
  | accepted
  | opened
  | closed
  /-- given to `new_connection_callback_` -/
  | passed
  deriving DecidableEq, Repr

structure LedgerEntry where
  act : FileAct
  fd : ℕ
  file : File
  deriving DecidableEq, Repr

/-- The acceptor with the descriptor table of the process and the queue of the
listening socket. No number stands for `-1`. -/
structure Acceptor where
  table : Table File
  listenfd : Option ℕ
  idlefd : Option ℕ
  pending : List ℕ
  arrivals : ℕ
  ledger : List LedgerEntry

namespace Acceptor

/-! ## The calls into the kernel -/

def accept (s : Acceptor) : Except Errno ℕ × Acceptor :=
  match s.pending with
  | [] => (.error (if s.table.lowestFree = none then .EMFILE else .EAGAIN), s)
  | n :: rest =>
      match s.table.openFile (.connection n) with
      | none => (.error .EMFILE, s)
      | some (fd, table) =>
          (.ok fd, { s with
            table := table
            pending := rest
            ledger := s.ledger ++ [⟨.accepted, fd, .connection n⟩] })

/-- `close`, without effect on a number that is not open. -/
def close (s : Acceptor) (fd : Option ℕ) : Acceptor :=
  match fd with
  | none => s
  | some fd =>
      match s.table.files fd with
      | none => s
      | some file => { s with
          table := s.table.close fd
          ledger := s.ledger ++ [⟨.closed, fd, file⟩] }

/-- `idlefd_ = ::open("/dev/null", O_RDONLY | O_CLOEXEC)` -/
def openIdle (s : Acceptor) : Acceptor :=
  match s.table.openFile .reserve with
  | none => { s with idlefd := none }
  | some (fd, table) => { s with
      table := table
      idlefd := some fd
      ledger := s.ledger ++ [⟨.opened, fd, .reserve⟩] }

/-- `idlefd_ = ::accept(listenfd_, NULL, NULL)` -/
def acceptIdle (s : Acceptor) : Acceptor :=
  match s.accept with
  | (.error _, s) => { s with idlefd := none }
  | (.ok fd, s) => { s with idlefd := some fd }

def newConnectionCallback (s : Acceptor) (connfd : ℕ) : Acceptor :=
  match s.table.files connfd with
  | none => s
  | some file => { s with ledger := s.ledger ++ [⟨.passed, connfd, file⟩] }

/-! ## The acceptor -/

/-- `socket` and `open`, in the order of the members. -/
def new (table : Table File) : Acceptor :=
  match table.openFile .listening with
  | none => openIdle ⟨table, none, none, [], 0, []⟩
  | some (fd, table) => openIdle ⟨table, some fd, none, [], 0, [⟨.opened, fd, .listening⟩]⟩

/-- `NewConnection`, where `keepAlive` and `tcpNoDelay` tell whether
`SetSockoptKeepAlive` and `SetSockoptTcpNoDelay` succeed. -/
def newConnection (s : Acceptor) (keepAlive tcpNoDelay : Bool) : Acceptor :=
  match s.accept with
  | (.error .EMFILE, s) =>
      let s := s.close s.idlefd
      let s := s.acceptIdle
      let s := s.close s.idlefd
      s.openIdle
  | (.error .EAGAIN, s) => s
  | (.ok connfd, s) =>
      -- `NDEBUG` removes `assert(connfd > 0)`
      if keepAlive = false then s.close (some connfd)
      else if tcpNoDelay = false then s.close (some connfd)
      else s.newConnectionCallback connfd

/-- `idlefd_` is open on `/dev/null`. -/
def Reserved (s : Acceptor) : Prop :=
  ∃ fd, s.idlefd = some fd ∧ s.table.files fd = some .reserve

/-! ## What one invocation does -/

inductive NewConnectionCase (s : Acceptor) : Acceptor → Prop where
  /-- no connection and no `EMFILE` -/
  | nothing (hpending : s.pending = []) (hfree : ¬ s.table.Full) : NewConnectionCase s s
  /-- `EMFILE`, and nothing to take with the reserve -/
  | spurious {idle : ℕ} (hpending : s.pending = []) (hfull : s.table.Full)
      (hidle : s.idlefd = some idle) :
      NewConnectionCase s { s with
        ledger := s.ledger ++ [⟨.closed, idle, .reserve⟩, ⟨.opened, idle, .reserve⟩] }
  /-- `EMFILE`, and a connection turned away -/
  | exhausted {idle n : ℕ} {rest : List ℕ} (hpending : s.pending = n :: rest)
      (hfull : s.table.Full) (hidle : s.idlefd = some idle) :
      NewConnectionCase s { s with
        pending := rest
        ledger := s.ledger ++ [⟨.closed, idle, .reserve⟩, ⟨.accepted, idle, .connection n⟩,
          ⟨.closed, idle, .connection n⟩, ⟨.opened, idle, .reserve⟩] }
  /-- a socket option failed -/
  | refused {fd n : ℕ} {rest : List ℕ} (hpending : s.pending = n :: rest)
      (hfd : s.table.lowestFree = some fd) :
      NewConnectionCase s { s with
        pending := rest
        ledger := s.ledger ++
          [⟨.accepted, fd, .connection n⟩, ⟨.closed, fd, .connection n⟩] }
  | passed {fd n : ℕ} {rest : List ℕ} (hpending : s.pending = n :: rest)
      (hfd : s.table.lowestFree = some fd) :
      NewConnectionCase s { s with
        table := s.table.place fd (Table.lowestFree_some hfd).1 (.connection n)
        pending := rest
        ledger := s.ledger ++
          [⟨.accepted, fd, .connection n⟩, ⟨.passed, fd, .connection n⟩] }

theorem accept_nil {s : Acceptor} (h : s.pending = []) :
    s.accept = (.error (if s.table.lowestFree = none then .EMFILE else .EAGAIN), s) := by
  unfold accept
  rw [h]

theorem accept_nil_room {s : Acceptor} {fd : ℕ} (h : s.pending = [])
    (hfd : s.table.lowestFree = some fd) : s.accept = (.error .EAGAIN, s) := by
  rw [accept_nil h, if_neg]
  rw [hfd]
  rintro ⟨⟩

theorem accept_full {s : Acceptor} (hfull : s.table.Full) : s.accept = (.error .EMFILE, s) := by
  have hnone := Table.lowestFree_eq_none.mpr hfull
  unfold accept
  cases s.pending with
  | nil => rw [if_pos hnone]
  | cons n rest => simp only [Table.openFile_of_full hfull]

theorem accept_cons {s : Acceptor} {n fd : ℕ} {rest : List ℕ} (h : s.pending = n :: rest)
    (hfd : s.table.lowestFree = some fd) :
    s.accept = (.ok fd, { s with
      table := s.table.place fd (Table.lowestFree_some hfd).1 (.connection n)
      pending := rest
      ledger := s.ledger ++ [⟨.accepted, fd, .connection n⟩] }) := by
  unfold accept
  rw [h]
  simp only [Table.openFile_of_lowestFree hfd]

theorem close_open {s : Acceptor} {fd : ℕ} {file : File} (h : s.table.files fd = some file) :
    s.close (some fd) = { s with
      table := s.table.close fd
      ledger := s.ledger ++ [⟨.closed, fd, file⟩] } := by
  unfold close
  simp only [h]

theorem acceptIdle_nil {s : Acceptor} (h : s.pending = []) :
    s.acceptIdle = { s with idlefd := none } := by
  unfold acceptIdle
  rw [accept_nil h]

theorem acceptIdle_cons {s : Acceptor} {n fd : ℕ} {rest : List ℕ} (h : s.pending = n :: rest)
    (hfd : s.table.lowestFree = some fd) :
    s.acceptIdle = { s with
      table := s.table.place fd (Table.lowestFree_some hfd).1 (.connection n)
      idlefd := some fd
      pending := rest
      ledger := s.ledger ++ [⟨.accepted, fd, .connection n⟩] } := by
  unfold acceptIdle
  rw [accept_cons h hfd]

theorem close_accepted (s : Acceptor) {fd : ℕ} (hfd : s.table.lowestFree = some fd)
    (file : File) (idlefd : Option ℕ) (pending : List ℕ) (ledger : List LedgerEntry) :
    close { s with
      table := s.table.place fd (Table.lowestFree_some hfd).1 file
      idlefd := idlefd, pending := pending, ledger := ledger } (some fd) =
    { s with
      idlefd := idlefd
      pending := pending
      ledger := ledger ++ [⟨.closed, fd, file⟩] } := by
  obtain ⟨hlt, hnone⟩ := Table.lowestFree_some hfd
  have hfile : (s.table.place fd hlt file).files fd = some file := Function.update_self ..
  rw [close_open hfile, Table.close_place hlt file hnone]

theorem newConnectionCallback_accepted (s : Acceptor) {fd : ℕ}
    (hfd : s.table.lowestFree = some fd) (file : File) (pending : List ℕ)
    (ledger : List LedgerEntry) :
    newConnectionCallback { s with
      table := s.table.place fd (Table.lowestFree_some hfd).1 file
      pending := pending, ledger := ledger } fd =
    { s with
      table := s.table.place fd (Table.lowestFree_some hfd).1 file
      pending := pending
      ledger := ledger ++ [⟨.passed, fd, file⟩] } := by
  have hlt := (Table.lowestFree_some hfd).1
  have hfile : (s.table.place fd hlt file).files fd = some file := Function.update_self ..
  unfold newConnectionCallback
  simp only [hfile]

theorem openIdle_closed {s : Acceptor} (hfull : s.table.Full) {idle : ℕ}
    (hfile : s.table.files idle = some .reserve) (idlefd : Option ℕ) (pending : List ℕ)
    (ledger : List LedgerEntry) :
    openIdle { s with
      table := s.table.close idle, idlefd := idlefd, pending := pending, ledger := ledger } =
    { s with
      idlefd := some idle
      pending := pending
      ledger := ledger ++ [⟨.opened, idle, .reserve⟩] } := by
  unfold openIdle
  simp only [Table.openFile_close hfull hfile]
  rw [Table.place_close hfile]

/-- **The reserve of a full table.** -/
theorem newConnection_full {s : Acceptor} (hfull : s.table.Full) {idle : ℕ}
    (hidle : s.idlefd = some idle) (hfile : s.table.files idle = some .reserve)
    (keepAlive tcpNoDelay : Bool) :
    s.NewConnectionCase (s.newConnection keepAlive tcpNoDelay) := by
  have hfree := Table.lowestFree_close hfull hfile
  let given : Acceptor := { s with
    table := s.table.close idle
    ledger := s.ledger ++ [⟨.closed, idle, .reserve⟩] }
  have hgiven : s.close s.idlefd = given := by rw [hidle, close_open hfile]
  unfold newConnection
  rw [accept_full hfull]
  simp only [hgiven]
  cases hpending : s.pending with
  | nil =>
      have haccept : given.acceptIdle = { given with idlefd := none } := acceptIdle_nil hpending
      have hopen := openIdle_closed hfull hfile none s.pending given.ledger
      have hresult : ({ given with idlefd := none } : Acceptor).openIdle = { s with
          ledger := s.ledger ++ [⟨.closed, idle, .reserve⟩, ⟨.opened, idle, .reserve⟩] } := by
        rw [hopen, ← hidle, List.append_assoc]
        rfl
      rw [haccept]
      exact hresult ▸ .spurious hpending hfull hidle
  | cons n rest =>
      have haccept := acceptIdle_cons (s := given) hpending hfree
      have hclose := close_accepted given hfree (.connection n) (some idle) rest
        (given.ledger ++ [⟨.accepted, idle, .connection n⟩])
      have hopen := openIdle_closed hfull hfile (some idle) rest
        (given.ledger ++ [⟨.accepted, idle, .connection n⟩] ++ [⟨.closed, idle, .connection n⟩])
      rw [haccept]
      simp only [hclose]
      rw [hopen, ← hidle]
      simp only [given, List.append_assoc, List.cons_append, List.nil_append]
      exact .exhausted hpending hfull hidle

/-- **A table with room.** -/
theorem newConnection_room {s : Acceptor} {fd : ℕ} (hfd : s.table.lowestFree = some fd)
    (keepAlive tcpNoDelay : Bool) :
    s.NewConnectionCase (s.newConnection keepAlive tcpNoDelay) := by
  unfold newConnection
  cases hpending : s.pending with
  | nil =>
      have hfree : ¬ s.table.Full := by
        rw [← Table.lowestFree_eq_none, hfd]
        rintro ⟨⟩
      rw [accept_nil_room hpending hfd]
      exact .nothing hpending hfree
  | cons n rest =>
      have hclose := close_accepted s hfd (.connection n) s.idlefd rest
        (s.ledger ++ [⟨.accepted, fd, .connection n⟩])
      have hpass := newConnectionCallback_accepted s hfd (.connection n) rest
        (s.ledger ++ [⟨.accepted, fd, .connection n⟩])
      have hrefused := NewConnectionCase.refused hpending hfd
      rw [accept_cons hpending hfd]
      simp only [hclose, hpass, List.append_assoc, List.cons_append, List.nil_append]
      split_ifs with hkeep hdelay
      · exact hrefused
      · exact hrefused
      · exact .passed hpending hfd

/-- **Every way through `NewConnection`.** -/
theorem newConnection_cases {s : Acceptor} (hs : s.Reserved) (keepAlive tcpNoDelay : Bool) :
    s.NewConnectionCase (s.newConnection keepAlive tcpNoDelay) := by
  obtain ⟨idle, hidle, hfile⟩ := hs
  cases hfd : s.table.lowestFree with
  | some fd => exact newConnection_room hfd keepAlive tcpNoDelay
  | none =>
      have hfull := Table.lowestFree_eq_none.mp hfd
      exact newConnection_full hfull hidle hfile keepAlive tcpNoDelay

/-! ## The account of one invocation -/

/-- What an invocation that starts in `s` leaves behind in `t`. -/
structure Invocation (s t : Acceptor) : Prop where
  /-- one connection leaves the queue, if there is one -/
  queue : t.pending = s.pending.tail
  reserve : t.idlefd = s.idlefd
  /-- the table changes by a connection that was passed on, or not at all -/
  table : t.table = s.table ∨ ∃ fd hfd n, s.table.files fd = none ∧
    t.table = s.table.place fd hfd (.connection n) ∧ ⟨.passed, fd, .connection n⟩ ∈ t.ledger
  /-- what was opened and closed: the reserve, and a connection it accepted -/
  entries : ∃ entries, t.ledger = s.ledger ++ entries ∧
    ∀ e ∈ entries, (e.file = .reserve ∧ s.idlefd = some e.fd) ∨
      ∃ n, e.file = .connection n ∧ ⟨.accepted, e.fd, e.file⟩ ∈ entries

theorem NewConnectionCase.invocation {s t : Acceptor} (h : s.NewConnectionCase t) :
    s.Invocation t := by
  cases h with
  | nothing hpending hfree =>
      refine ⟨by rw [hpending]; rfl, rfl, .inl rfl, [], by simp, by simp⟩
  | spurious hpending hfull hidle =>
      refine ⟨by rw [hpending]; rfl, rfl, .inl rfl, _, rfl, ?_⟩
      simp [hidle]
  | exhausted hpending hfull hidle =>
      refine ⟨by rw [hpending]; rfl, rfl, .inl rfl, _, rfl, ?_⟩
      simp [hidle]
  | refused hpending hfd =>
      refine ⟨by rw [hpending]; rfl, rfl, .inl rfl, _, rfl, ?_⟩
      simp
  | passed hpending hfd =>
      obtain ⟨hlt, hnone⟩ := Table.lowestFree_some hfd
      refine ⟨by rw [hpending]; rfl, rfl, .inr ⟨_, hlt, _, hnone, rfl, by simp⟩, _, rfl, ?_⟩
      simp

/-! ## Runs -/

inductive Label where
  /-- a client connects -/
  | arrival
  | newConnection (keepAlive tcpNoDelay : Bool)
  /-- the rest of the thread opens and closes its own descriptors -/
  | elsewhere
  deriving DecidableEq

/-- The other users of the table leave the acceptor its two descriptors. -/
def Spared (s : Acceptor) (table : Table File) : Prop :=
  ∀ fd, s.listenfd = some fd ∨ s.idlefd = some fd → table.files fd = s.table.files fd

def step (s : Acceptor) : Label → Acceptor → Prop
  | .arrival, t => t = { s with pending := s.pending ++ [s.arrivals], arrivals := s.arrivals + 1 }
  | .newConnection keepAlive tcpNoDelay, t => t = s.newConnection keepAlive tcpNoDelay
  | .elsewhere, t => ∃ table, s.Spared table ∧ t = { s with table := table }

/-- An acceptor whose constructor got a reserve descriptor. -/
def system : LTS Acceptor Label where
  init s := ∃ table, s = new table ∧ s.idlefd ≠ none
  step := step

/-- The connections that were accepted, in this order. -/
def acceptedConnections (ledger : List LedgerEntry) : List ℕ :=
  ledger.filterMap fun e =>
    match e.act, e.file with
    | .accepted, .connection n => some n
    | _, _ => none

structure Accounted (s : Acceptor) : Prop where
  reserved : s.Reserved
  listening : ∃ fd, s.listenfd = some fd ∧ s.table.files fd = some .listening
  /-- the connections are accepted in the order of their arrival, each one once -/
  once : acceptedConnections s.ledger ++ s.pending = List.range s.arrivals
  disposed : ∀ fd n, s.ledger.count ⟨.accepted, fd, .connection n⟩ =
    s.ledger.count ⟨.closed, fd, .connection n⟩ + s.ledger.count ⟨.passed, fd, .connection n⟩

theorem openIdle_full {s : Acceptor} (hfull : s.table.Full) :
    s.openIdle = { s with idlefd := none } := by
  unfold openIdle
  rw [Table.openFile_of_full hfull]

theorem openIdle_room {s : Acceptor} {fd : ℕ} (hfd : s.table.lowestFree = some fd) :
    s.openIdle = { s with
      table := s.table.place fd (Table.lowestFree_some hfd).1 .reserve
      idlefd := some fd
      ledger := s.ledger ++ [⟨.opened, fd, .reserve⟩] } := by
  unfold openIdle
  rw [Table.openFile_of_lowestFree hfd]

theorem new_accounted {table : Table File} (h : (new table).idlefd ≠ none) :
    (new table).Accounted := by
  unfold new at h ⊢
  cases hlisten : table.lowestFree with
  | none =>
      have hfull := Table.lowestFree_eq_none.mp hlisten
      rw [Table.openFile_of_full hfull] at h
      exact absurd (congrArg idlefd (openIdle_full hfull)) h
  | some fd =>
      obtain ⟨hlt, hnone⟩ := Table.lowestFree_some hlisten
      rw [Table.openFile_of_lowestFree hlisten] at h ⊢
      simp only at h ⊢
      cases hidle : (table.place fd hlt .listening).lowestFree with
      | none => exact absurd (congrArg idlefd (openIdle_full (Table.lowestFree_eq_none.mp hidle))) h
      | some idle =>
          obtain ⟨hlt', hnone'⟩ := Table.lowestFree_some hidle
          rw [openIdle_room hidle]
          have hfile : (table.place fd hlt .listening).files fd = some .listening :=
            Function.update_self ..
          have hne : fd ≠ idle := by
            rintro rfl
            rw [hfile] at hnone'
            cases hnone'
          refine ⟨⟨idle, rfl, Function.update_self ..⟩, ⟨fd, rfl, ?_⟩, by simp [acceptedConnections],
            by simp⟩
          exact (Function.update_of_ne hne ..).trans hfile

/-- The connections that were pending are those accepted and those still pending. -/
theorem NewConnectionCase.once {s t : Acceptor} (h : s.NewConnectionCase t) :
    acceptedConnections t.ledger ++ t.pending = acceptedConnections s.ledger ++ s.pending := by
  cases h with
  | nothing => rfl
  | spurious => simp [acceptedConnections]
  | exhausted hpending => simp [acceptedConnections, hpending]
  | refused hpending => simp [acceptedConnections, hpending]
  | passed hpending => simp [acceptedConnections, hpending]

theorem NewConnectionCase.disposed {s t : Acceptor} (h : s.NewConnectionCase t) {fd n : ℕ}
    (hs : s.ledger.count ⟨.accepted, fd, .connection n⟩ =
      s.ledger.count ⟨.closed, fd, .connection n⟩ + s.ledger.count ⟨.passed, fd, .connection n⟩) :
    t.ledger.count ⟨.accepted, fd, .connection n⟩ =
      t.ledger.count ⟨.closed, fd, .connection n⟩ +
        t.ledger.count ⟨.passed, fd, .connection n⟩ := by
  cases h with
  | nothing => exact hs
  | spurious => simpa [List.count_cons] using hs
  | exhausted => simp [List.count_cons, hs]; omega
  | refused => simp [List.count_cons, hs]; omega
  | passed => simp [List.count_cons, hs]; omega

theorem Accounted.newConnection {s t : Acceptor} (hs : s.Accounted) (h : s.NewConnectionCase t) :
    t.Accounted := by
  have hinv := h.invocation
  have harrivals : t.arrivals = s.arrivals := by cases h <;> rfl
  have hlisten : t.listenfd = s.listenfd := by cases h <;> rfl
  -- a file of the table stays where it is
  have hkept : ∀ fd file, s.table.files fd = some file → t.table.files fd = some file := by
    intro fd file hfile
    rcases hinv.table with htable | ⟨k, hk, n, hnone, htable, -⟩
    · rw [htable, hfile]
    · have hne : fd ≠ k := by
        rintro rfl
        rw [hfile] at hnone
        cases hnone
      rw [htable]
      exact (Function.update_of_ne hne ..).trans hfile
  obtain ⟨idle, hidle, hfile⟩ := hs.reserved
  obtain ⟨listenfd, hlistenfd, hlistening⟩ := hs.listening
  exact ⟨⟨idle, hinv.reserve.trans hidle, hkept _ _ hfile⟩,
    ⟨listenfd, hlisten.trans hlistenfd, hkept _ _ hlistening⟩,
    by rw [h.once, hs.once, harrivals], fun fd n => h.disposed (hs.disposed fd n)⟩

theorem Accounted.step {s t : Acceptor} (hs : s.Accounted) {l : Label}
    (h : s.step l t) : t.Accounted := by
  obtain ⟨idle, hidle, hfile⟩ := hs.reserved
  obtain ⟨listenfd, hlistenfd, hlistening⟩ := hs.listening
  cases l with
  | arrival =>
      obtain rfl : t = _ := h
      refine ⟨⟨idle, hidle, hfile⟩, ⟨listenfd, hlistenfd, hlistening⟩, ?_, hs.disposed⟩
      rw [List.range_succ, ← hs.once, List.append_assoc]
  | newConnection keepAlive tcpNoDelay =>
      obtain rfl : t = _ := h
      exact hs.newConnection (newConnection_cases hs.reserved keepAlive tcpNoDelay)
  | elsewhere =>
      obtain ⟨table, hspared, rfl⟩ := h
      exact ⟨⟨idle, hidle, (hspared idle (.inr hidle)).trans hfile⟩,
        ⟨listenfd, hlistenfd, (hspared listenfd (.inl hlistenfd)).trans hlistening⟩,
        hs.once, hs.disposed⟩

theorem run_accounted {ms : List (Move Acceptor Label)} {s : Acceptor}
    (h : Run system ms s) : s.Accounted := by
  apply h.invariant
  · rintro s ⟨table, rfl, hidle⟩
    exact new_accounted hidle
  · intro s l t hs hstep
    exact hs.step hstep

def invocations (s : Acceptor) (outcomes : List (Bool × Bool)) : Acceptor :=
  outcomes.foldl (fun s o => s.newConnection o.1 o.2) s

/-- **A row of invocations empties the queue from the front.** -/
theorem Accounted.invocations_pending {s : Acceptor} (hs : s.Accounted)
    (outcomes : List (Bool × Bool)) :
    (s.invocations outcomes).pending = s.pending.drop outcomes.length := by
  induction outcomes generalizing s with
  | nil => rfl
  | cons o outcomes ih =>
      have hcase := newConnection_cases hs.reserved o.1 o.2
      have htail := ih (hs.newConnection hcase)
      rw [hcase.invocation.queue, List.drop_tail] at htail
      rw [List.length_cons]
      exact htail

theorem count_accepted_le (ledger : List LedgerEntry) (fd n : ℕ) :
    ledger.count ⟨.accepted, fd, .connection n⟩ ≤ (acceptedConnections ledger).count n := by
  induction ledger with
  | nil => simp
  | cons e ledger ih =>
      obtain ⟨act, k, file⟩ := e
      unfold acceptedConnections at ih ⊢
      rw [List.count_cons, List.filterMap_cons]
      cases act <;> cases file <;> simp <;> grind

/-- **An accepted connection** is closed or passed on, and not twice. -/
theorem Accounted.disposed_once {s : Acceptor} (hs : s.Accounted) {fd n : ℕ}
    (h : ⟨.accepted, fd, .connection n⟩ ∈ s.ledger) :
    s.ledger.count ⟨.closed, fd, .connection n⟩ +
      s.ledger.count ⟨.passed, fd, .connection n⟩ = 1 := by
  have hnodup : (acceptedConnections s.ledger ++ s.pending).Nodup := by
    rw [hs.once]
    exact List.nodup_range
  have hle := count_accepted_le s.ledger fd n
  have honce := List.nodup_iff_count.mp (List.nodup_append.mp hnodup).1 n
  have hpos := List.count_pos_iff.mpr h
  have hdisposed := hs.disposed fd n
  omega

end Acceptor

open Acceptor in
/-- **The descriptors of the acceptor balance**, in every run: the reserve is open
after each invocation, each accepted connection is closed or passed on exactly
once, nothing else is opened or closed, and each invocation takes a connection out
of the queue, so that a row of them empties it. -/
theorem acceptor_balances {ms : List (Move Acceptor Label)} {s : Acceptor}
    (h : Run Acceptor.system ms s) :
    s.Accounted ∧
    (∀ fd n, ⟨.accepted, fd, .connection n⟩ ∈ s.ledger →
      s.ledger.count ⟨.closed, fd, .connection n⟩ +
        s.ledger.count ⟨.passed, fd, .connection n⟩ = 1) ∧
    (∀ keepAlive tcpNoDelay, (s.newConnection keepAlive tcpNoDelay).Reserved ∧
      s.Invocation (s.newConnection keepAlive tcpNoDelay)) ∧
    ∀ outcomes, (s.invocations outcomes).pending = s.pending.drop outcomes.length := by
  have hs := run_accounted h
  refine ⟨hs, ?_, ?_, ?_⟩
  · intro fd n hmem
    exact hs.disposed_once hmem
  · intro keepAlive tcpNoDelay
    have hcase := newConnection_cases hs.reserved keepAlive tcpNoDelay
    exact ⟨(hs.newConnection hcase).reserved, hcase.invocation⟩
  · intro outcomes
    exact hs.invocations_pending outcomes

/-- Four numbers, two of them taken before the acceptor is made: its own two fill the
table. -/
def smallTable : Descriptors.Table File where
  limit := 4
  files fd := if fd < 2 then some .other else none
  bounded fd hfd := if_neg (by omega)

/-- Two clients connect to it. -/
def crowded : Acceptor :=
  { Acceptor.new smallTable with pending := [0, 1], arrivals := 2 }

theorem crowded_run : ∃ ms, Run Acceptor.system ms crowded ∧ labels ms = [.arrival, .arrival] := by
  have hstart : Acceptor.system.init (.new smallTable) := ⟨smallTable, rfl, by decide⟩
  have hone := Run.next (l := Acceptor.Label.arrival) (.start hstart) (by exact rfl)
  exact ⟨_, .next (l := Acceptor.Label.arrival) hone rfl, rfl⟩

/-- They are turned away one after the other. -/
theorem acceptor_balances_crowded :
    crowded.table.lowestFree = none ∧ crowded.pending = [0, 1] ∧
      (crowded.invocations [(true, true), (true, true)]).pending = [] ∧ crowded.Accounted := by
  obtain ⟨ms, hrun, -⟩ := crowded_run
  obtain ⟨hs, -, -, hrow⟩ := acceptor_balances hrun
  exact ⟨by decide, rfl, hrow _, hs⟩

end TinyMuduo
