import WwjMuduo.Buffer
import WwjMuduo.Channel
import WwjMuduo.SocketsOps

set_option autoImplicit false

/-! # TcpConnection

The members of `TcpConnection` change its state, its channel and its buffers, and call out: to
`::write` and `readv`, to the loop's poller, to the socket, and to the callbacks. The calls out are
recorded in `effects`, oldest first, and carried out by the modules that put the connection into its
surroundings. Some effects the code never has are listed too, because its interface promises them
(`messageCallback`, `writeCompleteCallback`, `closeCallback`).

`none` is undefined behaviour: reading or writing outside a buffer. -/

namespace WwjMuduo

inductive StateE where
  | kConnecting
  | kConnected
  | kDisconnecting
  | kDisconnected
  deriving DecidableEq

/-- What a connection does to its surroundings. -/
inductive Effect where
  /-- One `::write` on the connection, and the bytes it accepted. -/
  | write (accepted : List UInt8)
  /-- One `readv` that returned bytes. -/
  | readv (chunk : List UInt8)
  | updateChannel
  | removeChannel
  | shutdownWrite
  | connectionCallback
  /-- The readable bytes of the input buffer at the call. -/
  | messageCallback (readable : Option (List UInt8))
  | writeCompleteCallback
  | closeCallback
  deriving DecidableEq

/-- The outcome of `::write`: how many of the bytes offered were accepted, or an errno. -/
inductive WriteOutcome where
  | count (n : ℕ)
  | err (errno : Errno)
  deriving DecidableEq

namespace WriteOutcome

/-- The system accepts at most the bytes it is offered. -/
def Possible (offered : List UInt8) : WriteOutcome → Prop
  | .count n => n ≤ offered.length
  | .err _ => True

instance (offered : List UInt8) (outcome : WriteOutcome) : Decidable (outcome.Possible offered) := by
  cases outcome <;> unfold Possible <;> infer_instance

/-- How many bytes were accepted; none by a call that failed. -/
def accepted : WriteOutcome → ℕ
  | .count n => n
  | .err _ => 0

end WriteOutcome

structure TcpConnection where
  state_ : StateE
  loop_ : ℕ
  name_ : String
  socket_ : ℤ
  channel_ : Channel
  localAddr_ : InetAddress
  peerAddr_ : InetAddress
  inputBuffer_ : Buffer
  outputBuffer_ : Buffer
  effects : List Effect

/-- The values in the memory of a new connection that its constructors do not set: the state, the
    address that `peerAddr_(peerAddr_)` copies onto itself, and the indices of the two buffers. -/
structure Uninitialised where
  state_ : StateE
  peerAddr_ : InetAddress
  inputReader : UInt64
  inputWriter : UInt64
  outputReader : UInt64
  outputWriter : UInt64

/-- Memory that happens to hold what the constructors are meant to set. -/
def Uninitialised.asMeant (peerAddr : InetAddress) : Uninitialised :=
  { state_ := .kConnecting
    peerAddr_ := peerAddr
    inputReader := Buffer.kCheapPrepend
    inputWriter := Buffer.kCheapPrepend
    outputReader := Buffer.kCheapPrepend
    outputWriter := Buffer.kCheapPrepend }

namespace TcpConnection

/-- The constructor. Its parameter `peerAddr` is not used: `peerAddr_` is initialised from itself. -/
def new (memory : Uninitialised) (loop : ℕ) (nameArg : String) (sockfd : ℤ)
    (localAddr _peerAddr : InetAddress) : TcpConnection :=
  { state_ := memory.state_
    loop_ := loop
    name_ := nameArg
    socket_ := sockfd
    channel_ := Channel.new sockfd
    localAddr_ := localAddr
    peerAddr_ := memory.peerAddr_
    inputBuffer_ := Buffer.new memory.inputReader memory.inputWriter
    outputBuffer_ := Buffer.new memory.outputReader memory.outputWriter
    effects := [] }

def emit (c : TcpConnection) (e : Effect) : TcpConnection := { c with effects := c.effects ++ [e] }

/-- A member of the channel that changes its mask and calls `update()`. -/
def withChannel (c : TcpConnection) (f : Channel → Channel) : TcpConnection :=
  { c with channel_ := f c.channel_ }.emit .updateChannel

def setState (c : TcpConnection) (s : StateE) : TcpConnection := { c with state_ := s }

/-! ## Reading -/

def handleClose (c : TcpConnection) : TcpConnection := c.withChannel Channel.disableAll

/-- `handleError` asks the socket for its error and logs. -/
def handleError (c : TcpConnection) : TcpConnection := c

/-- `handleRead`. When bytes have been read the branch is empty. -/
def handleRead (c : TcpConnection) (outcome : Buffer.ReadOutcome) : Option TcpConnection :=
  (c.inputBuffer_.readFd outcome).map fun (buffer, n, _savedErrno) =>
    let c := { c with inputBuffer_ := buffer }
    let c := match outcome with
      | .bytes chunk => c.emit (.readv chunk)
      | .err _ => c
    if 0 < n then c
    else if n = 0 then c.handleClose
    else c.handleError

/-! ## Writing -/

def shutdownInLoop (c : TcpConnection) : TcpConnection :=
  if !c.channel_.isWriting then c.emit .shutdownWrite else c

/-- `handleWrite`, with the outcome of the `::write` it makes if the channel is writing. -/
def handleWrite (c : TcpConnection) (outcome : WriteOutcome) : Option TcpConnection :=
  if c.channel_.isWriting then
    c.outputBuffer_.readable.bind fun offered =>
      if outcome.Possible offered then
        let n := outcome.accepted
        let c := c.emit (.write (offered.take n))
        if 0 < n then
          let c := { c with outputBuffer_ := c.outputBuffer_.retrieve (UInt64.ofNat n) }
          if c.outputBuffer_.readableBytes = 0 then
            let c := c.withChannel Channel.disableWriting
            some (if c.state_ = .kDisconnecting then c.shutdownInLoop else c)
          else some c
        else some c
      else none
  else some c

/-- `sendInLoop`, with the outcome of the `::write` it makes if nothing is waiting. -/
def sendInLoop (c : TcpConnection) (message : List UInt8) (outcome : WriteOutcome) :
    Option TcpConnection :=
  let direct := !c.channel_.isWriting && c.outputBuffer_.readableBytes == 0
  if direct ∧ ¬ outcome.Possible message then none
  else
    let nwrote := if direct then outcome.accepted else 0
    let c := if direct then c.emit (.write (message.take nwrote)) else c
    if nwrote < message.length then
      let c := { c with outputBuffer_ := c.outputBuffer_.append (message.drop nwrote) }
      some (if !c.channel_.isWriting then c.withChannel Channel.enableWriting else c)
    else some c

/-! ## Life cycle -/

def connectEstablished (c : TcpConnection) : TcpConnection :=
  ((c.setState .kConnected).withChannel Channel.enableReading).emit .connectionCallback

def connectDestroyed (c : TcpConnection) : TcpConnection :=
  (((c.setState .kDisconnected).withChannel Channel.disableAll).emit .connectionCallback).emit
    .removeChannel

theorem shutdownInLoop_of_writing {c : TcpConnection} (h : c.channel_.isWriting = true) :
    c.shutdownInLoop = c := by
  simp [shutdownInLoop, h]

theorem shutdownInLoop_of_not_writing {c : TcpConnection} (h : c.channel_.isWriting = false) :
    c.shutdownInLoop = c.emit .shutdownWrite := by
  simp [shutdownInLoop, h]

/-- A connection that has just been established does not wait to write. -/
theorem isWriting_established (memory : Uninitialised) (loop : ℕ) (nameArg : String) (sockfd : ℤ)
    (localAddr peerAddr : InetAddress) :
    (new memory loop nameArg sockfd localAddr peerAddr).connectEstablished.channel_.isWriting =
      false := by
  show (Channel.enableReading (Channel.new sockfd)).isWriting = false
  rw [Channel.isWriting_enableReading, Channel.isWriting_new]

end TcpConnection

end WwjMuduo
