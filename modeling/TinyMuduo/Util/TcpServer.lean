import TinyMuduo.Lib.Transition
import TinyMuduo.Util.TcpConnection

/-!
# `TcpServer`: a connection between two loops

Translation of `Util/tcpserver.cc`, of the lifecycle of `Util/tcpconnection.cc`
and of the queues of `Util/eventloop.cc`, for a base loop and any number of IO
loops. Loop `0` is the base loop; each loop is one thread. A `TcpConnection*`
is the number of the connection.

A step of a thread ends where it calls a functor on the spot (`RunOneFunc` in
its own loop), so that the other threads may move in between; the functor is
then the next thing this thread runs. A call through a dangling pointer and the
`erase` of an entry that is not there have no next state.
-/

namespace TinyMuduo

open Transition

abbrev ConnectionId := ℕ

/-! ## Loops -/

/-- What is bound with `std::bind` and handed to a loop. Each functor holds a
reference to its connection. -/
inductive Functor where
  | connectionEstablished (p : ConnectionId)
  | handleCloseInLoop (p : ConnectionId)
  | connectionDestructor (p : ConnectionId)
deriving DecidableEq

def Functor.connection : Functor → ConnectionId
  | .connectionEstablished p => p
  | .handleCloseInLoop p => p
  | .connectionDestructor p => p

/-- Where the thread is in `Loop`: about to poll, in the handlers of the active
channels still to be handled, or in `DoToDoList` with the functors still to be
run and those that were run. -/
inductive LoopStage where
  | polling
  | handling (active : List ConnectionId)
  | calling (functors ran : List Functor)
deriving DecidableEq

namespace LoopStage

def active : LoopStage → List ConnectionId
  | .handling active => active
  | _ => []

def functors : LoopStage → List Functor
  | .calling functors _ => functors
  | _ => []

def ran : LoopStage → List Functor
  | .calling _ ran => ran
  | _ => []

end LoopStage

/-- One loop: `to_do_list_`, its thread, the functor the thread is about to call
on the spot, and its poller. -/
structure ServerLoop where
  toDoList : List Functor
  stage : LoopStage
  inline : Option Functor
  poller : Epoller ConnectionId

namespace ServerLoop

def new : ServerLoop := ⟨[], .polling, none, Epoller.new⟩

def pending (l : ServerLoop) : List Functor := l.inline.toList ++ l.stage.functors ++ l.toDoList

/-- The functors that hold a reference: `functors` is destroyed as a whole. -/
def holding (l : ServerLoop) : List Functor := l.pending ++ l.stage.ran

end ServerLoop

/-! ## The server -/

/-- A `TcpConnection` object and `loop_`. -/
structure ConnectionObject where
  loop : ℕ
  conn : TcpConnection

/-- `connections_`, `EventLoopThreadPool::next_`, the loops, the objects that
exist, how many were made, the copies of `TcpConnectionPtr` the callbacks keep,
and the descriptors that are open. -/
structure TcpServer where
  connections : ℕ → Option ConnectionId
  next : ℕ
  loops : ℕ → ServerLoop
  objects : ConnectionId → Option ConnectionObject
  made : ℕ
  kept : ConnectionId → ℕ
  openFds : ℕ → Bool

namespace TcpServer

def new : TcpServer where
  connections := fun _ => none
  next := 0
  loops := fun _ => ServerLoop.new
  objects := fun _ => none
  made := 0
  kept := fun _ => 0
  openFds := fun _ => false

def updateLoop (L : ℕ) (g : ServerLoop → ServerLoop) (s : TcpServer) : TcpServer :=
  { s with loops := Function.update s.loops L (g (s.loops L)) }

def queueOneFunc (L : ℕ) (f : Functor) (s : TcpServer) : TcpServer :=
  s.updateLoop L fun l => { l with toDoList := l.toDoList ++ [f] }

/-- `RunOneFunc` of loop `L`, called by the thread of loop `caller`. -/
def runOneFunc (caller L : ℕ) (f : Functor) (s : TcpServer) : TcpServer :=
  if caller = L then s.updateLoop L fun l => { l with inline := some f }
  else s.queueOneFunc L f

/-- `NextLoop` among `n` IO loops. -/
def nextLoop (n : ℕ) (s : TcpServer) : ℕ × TcpServer :=
  if n = 0 then (0, s)
  else (s.next + 1, { s with next := if s.next + 1 = n then 0 else s.next + 1 })

def handleNewConnection (n connfd : ℕ) (s : TcpServer) : TcpServer :=
  let (loop, s) := s.nextLoop n
  let ptr := s.made
  let s := { s with
    objects := Function.update s.objects ptr (some ⟨loop, TcpConnection.new connfd⟩)
    made := s.made + 1
    connections := Function.update s.connections connfd (some ptr) }
  s.runOneFunc 0 loop (.connectionEstablished ptr)

/-- A member of the connection that works on it and on the poller of `loop_`. -/
def withPoller (p : ConnectionId)
    (member : TcpConnection → Epoller ConnectionId → TcpConnection × Epoller ConnectionId)
    (s : TcpServer) : Option TcpServer :=
  match s.objects p with
  | none => none
  | some c =>
      let (conn, poller) := member c.conn (s.loops c.loop).poller
      let s := { s with objects := Function.update s.objects p (some { c with conn := conn }) }
      some (s.updateLoop c.loop fun l => { l with poller := poller })

def connectionEstablished (p : ConnectionId) (s : TcpServer) : Option TcpServer :=
  s.withPoller p (TcpConnection.connectionEstablished p)

/-- `TcpConnection::HandleClose` in the thread of loop `caller`, and the
`TcpServer::HandleClose` it ends with. -/
def handleClose (caller : ℕ) (p : ConnectionId) (s : TcpServer) : Option TcpServer := do
  let s ← s.withPoller p (TcpConnection.handleClose p)
  some (s.runOneFunc caller 0 (.handleCloseInLoop p))

def handleCloseInLoop (p : ConnectionId) (s : TcpServer) : Option TcpServer := do
  let c ← s.objects p
  let _ ← s.connections c.conn.fd
  let s := { s with connections := Function.update s.connections c.conn.fd none }
  some (s.queueOneFunc c.loop (.connectionDestructor p))

def connectionDestructor (p : ConnectionId) (s : TcpServer) : Option TcpServer :=
  s.withPoller p (TcpConnection.connectionDestructor p)

def call (s : TcpServer) : Functor → Option TcpServer
  | .connectionEstablished p => s.connectionEstablished p
  | .handleCloseInLoop p => s.handleCloseInLoop p
  | .connectionDestructor p => s.connectionDestructor p

def shutdown (p : ConnectionId) (s : TcpServer) : Option TcpServer :=
  match s.objects p with
  | none => none
  | some c =>
      let conn := { c.conn with state := .kDisconnecting }
      some { s with objects := Function.update s.objects p (some { c with conn := conn }) }

/-- `~TcpConnection`: with the last descriptor of a file the kernel also drops
its registrations. -/
def destroy (p : ConnectionId) (s : TcpServer) : Option TcpServer :=
  match s.objects p with
  | none => none
  | some c =>
      some { s with
        objects := Function.update s.objects p none
        openFds := Function.update s.openFds c.conn.fd false
        loops := fun L =>
          { s.loops L with
            poller :=
              { (s.loops L).poller with
                interest := Function.update (s.loops L).poller.interest c.conn.fd none } } }

/-- Someone holds a `shared_ptr` to `p`: `connections_`, a functor or a callback.
The `guard` of `HandleClose` lives while the functor it was bound into does. -/
def Referenced (p : ConnectionId) (s : TcpServer) : Prop :=
  (∃ fd, s.connections fd = some p) ∨ (∃ L, ∃ f ∈ (s.loops L).holding, f.connection = p) ∨
    0 < s.kept p

end TcpServer

/-! ## Runs -/

inductive ServerStep where
  | handleNewConnection (connfd : ℕ)
  | poll (L : ℕ) (active : List ConnectionId)
  | handleEvent (L : ℕ)
  | handleClose (L : ℕ)
  | callFunctors (L : ℕ)
  | runFunctor (L : ℕ)
  | runInline (L : ℕ)
  | returnToPoll (L : ℕ)
  | shutdown (p : ConnectionId)
  | keep (p : ConnectionId)
  | release (p : ConnectionId)
  | destroy (p : ConnectionId)
deriving DecidableEq

namespace TcpServer

/-- The thread of loop `L` is in `stage` and not about to call a functor. -/
structure At (s : TcpServer) (L : ℕ) (stage : LoopStage) : Prop where
  stage : (s.loops L).stage = stage
  inline : (s.loops L).inline = none

def setStage (L : ℕ) (stage : LoopStage) (s : TcpServer) : TcpServer :=
  s.updateLoop L fun l => { l with stage := stage }

/-- The steps of the base loop and of `n` IO loops. -/
inductive Step (n : ℕ) (s : TcpServer) : ServerStep → TcpServer → Prop where
  /-- `accept` returns a descriptor that is not open. -/
  | handleNewConnection {connfd : ℕ} {active : List ConnectionId}
      (hat : s.At 0 (.handling active)) (hfd : s.openFds connfd = false) :
      Step n s (.handleNewConnection connfd)
        { s.handleNewConnection n connfd with
          openFds := Function.update s.openFds connfd true }
  /-- The kernel reports each registered channel at most once. -/
  | poll {L : ℕ} {active : List ConnectionId} (hat : s.At L .polling) (hnodup : active.Nodup)
      (hregistered : ∀ p ∈ active, ∃ fd events,
        (s.loops L).poller.interest fd = some (p, events)) :
      Step n s (.poll L active) (s.setStage L (.handling active))
  /-- An event that does not end in `HandleClose`. -/
  | handleEvent {L : ℕ} {p : ConnectionId} {active : List ConnectionId}
      (hat : s.At L (.handling (p :: active))) :
      Step n s (.handleEvent L) (s.setStage L (.handling active))
  | handleClose {L : ℕ} {p : ConnectionId} {active : List ConnectionId} {t : TcpServer}
      (hat : s.At L (.handling (p :: active)))
      (h : (s.setStage L (.handling active)).handleClose L p = some t) :
      Step n s (.handleClose L) t
  /-- The swap of `DoToDoList`. -/
  | callFunctors {L : ℕ} (hat : s.At L (.handling [])) :
      Step n s (.callFunctors L)
        (s.updateLoop L fun l =>
          { l with toDoList := [], stage := .calling l.toDoList [] })
  | runFunctor {L : ℕ} {f : Functor} {functors ran : List Functor} {t : TcpServer}
      (hat : s.At L (.calling (f :: functors) ran))
      (h : (s.setStage L (.calling functors (ran ++ [f]))).call f = some t) :
      Step n s (.runFunctor L) t
  | runInline {L : ℕ} {f : Functor} {t : TcpServer} (hinline : (s.loops L).inline = some f)
      (h : (s.updateLoop L fun l => { l with inline := none }).call f = some t) :
      Step n s (.runInline L) t
  | returnToPoll {L : ℕ} {ran : List Functor} (hat : s.At L (.calling [] ran)) :
      Step n s (.returnToPoll L) (s.setStage L .polling)
  | shutdown {p : ConnectionId} {t : TcpServer} (href : s.Referenced p)
      (h : s.shutdown p = some t) : Step n s (.shutdown p) t
  | keep {p : ConnectionId} (href : s.Referenced p) :
      Step n s (.keep p) { s with kept := Function.update s.kept p (s.kept p + 1) }
  | release {p : ConnectionId} (hkept : 0 < s.kept p) :
      Step n s (.release p) { s with kept := Function.update s.kept p (s.kept p - 1) }
  | destroy {p : ConnectionId} {t : TcpServer} (href : ¬ s.Referenced p)
      (h : s.destroy p = some t) : Step n s (.destroy p) t

end TcpServer

def tcpServer (n : ℕ) : LTS TcpServer ServerStep := ⟨(· = TcpServer.new), TcpServer.Step n⟩

end TinyMuduo
