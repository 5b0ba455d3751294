import Mathlib.Data.Int.Basic
import Mathlib.Data.BitVec
import Mathlib.Tactic.Common

set_option autoImplicit false

/-! # Socket operations

`sockets::accept`, with the errno it leaves behind. `errno` is a value threaded through every call;
what the system and the logger do to it is a parameter (`System`): `fcntl` on a negative descriptor
fails with `EBADF`, everything else is left open. `LOG_FATAL` ends the process, so a function that may
reach it returns in `Except Fatal`. -/

namespace WwjMuduo

abbrev Errno := ℤ

def EPERM : Errno := 1
def EINTR : Errno := 4
def EBADF : Errno := 9
def EAGAIN : Errno := 11
def ENOMEM : Errno := 12
def EFAULT : Errno := 14
def EINVAL : Errno := 22
def ENFILE : Errno := 23
def EMFILE : Errno := 24
def EPROTO : Errno := 71
def ENOTSOCK : Errno := 88
def EOPNOTSUPP : Errno := 95
def ECONNABORTED : Errno := 103
def ENOBUFS : Errno := 105

/-! ## Addresses -/

/-- `struct sockaddr_in`, with port and address in network order. -/
structure SockAddrIn where
  sin_family : UInt16
  sin_port : UInt16
  sin_addr : UInt32
  deriving DecidableEq

def AF_INET : UInt16 := 2

/-- A `bzero`ed address. -/
def SockAddrIn.zero : SockAddrIn := ⟨0, 0, 0⟩

structure InetAddress where
  addr_ : SockAddrIn
  deriving DecidableEq

namespace sockets

/-- `htons` on a little-endian machine. -/
def hostToNetwork16 (host16 : UInt16) : UInt16 := (host16 <<< 8) ||| (host16 >>> 8)

end sockets

namespace InetAddress

/-- `InetAddress(uint16_t port)`: any local address. -/
def ofPort (port : UInt16) : InetAddress :=
  ⟨{ sin_family := AF_INET, sin_port := sockets.hostToNetwork16 port, sin_addr := 0 }⟩

def setSockAddrInet (_ : InetAddress) (addr : SockAddrIn) : InetAddress := ⟨addr⟩

end InetAddress

/-! ## The system and the logger -/

inductive FcntlCmd where
  | F_GETFL
  | F_SETFL
  | F_GETFD
  | F_SETFD
  deriving DecidableEq

def O_NONBLOCK : BitVec 32 := 0x800
def FD_CLOEXEC : BitVec 32 := 1

/-- What surrounds one call of `sockets::accept`: the answers of `fcntl` (result and `errno` after it),
    and the `errno` a `LOG_SYSERR` record leaves. -/
structure System where
  fcntl : ℤ → FcntlCmd → BitVec 32 → Errno → BitVec 32 × Errno
  fcntl_negative : ∀ fd cmd arg errno, fd < 0 → fcntl fd cmd arg errno = (-1, EBADF)
  logSyserr : Errno → Errno

/-- The outcome of the system call `::accept`. -/
inductive AcceptOutcome where
  | ok (connfd : ℕ) (addr : SockAddrIn)
  | err (errno : Errno)
  deriving DecidableEq

/-- A `LOG_FATAL` record: its message ends in the errno it reports. -/
structure Fatal where
  message : String
  errno : Errno
  deriving DecidableEq

namespace sockets

def setNonBlockAndCloseOnExec (sys : System) (sockfd : ℤ) (errno : Errno) : Errno :=
  let (flags, errno) := sys.fcntl sockfd .F_GETFL 0 errno
  let (_, errno) := sys.fcntl sockfd .F_SETFL (flags ||| O_NONBLOCK) errno
  let (flags, errno) := sys.fcntl sockfd .F_GETFD 0 errno
  let (_, errno) := sys.fcntl sockfd .F_SETFD (flags ||| FD_CLOEXEC) errno
  errno

/-- The errnos the `switch` goes on from. -/
def survivable : List Errno := [EAGAIN, ECONNABORTED, EINTR, EPROTO, EPERM, EMFILE]

/-- The errnos the `switch` names as unexpected. -/
def unexpected : List Errno :=
  [EBADF, EFAULT, EINVAL, ENFILE, ENOBUFS, ENOMEM, ENOTSOCK, EOPNOTSUPP]

/-- `sockets::accept`: the returned descriptor, the address it has filled in, and `errno`. -/
def accept (sys : System) (outcome : AcceptOutcome) (addr : SockAddrIn) (errno : Errno) :
    Except Fatal (ℤ × SockAddrIn × Errno) :=
  -- `::accept` writes the peer address on success and `errno` on failure
  let (connfd, addr, errno) : ℤ × SockAddrIn × Errno :=
    match outcome with
    | .ok fd peer => (fd, peer, errno)
    | .err e => (-1, addr, e)
  let errno := setNonBlockAndCloseOnExec sys connfd errno
  if connfd < 0 then
    let savedErrno := errno
    let _errno := sys.logSyserr errno
    if savedErrno ∈ survivable then
      .ok (connfd, addr, savedErrno)
    else if savedErrno ∈ unexpected then
      .error ⟨"unexpected error of ::accept ", savedErrno⟩
    else
      .error ⟨"unknown error of ::accept ", savedErrno⟩
  else
    .ok (connfd, addr, errno)

theorem setNonBlockAndCloseOnExec_negative (sys : System) {sockfd : ℤ} (h : sockfd < 0)
    (errno : Errno) : setNonBlockAndCloseOnExec sys sockfd errno = EBADF := by
  unfold setNonBlockAndCloseOnExec
  simp only [sys.fcntl_negative _ _ _ _ h]

/-- A successful `::accept` is returned with its descriptor and address. -/
theorem accept_ok (sys : System) (fd : ℕ) (peer addr : SockAddrIn) (errno : Errno) :
    accept sys (.ok fd peer) addr errno =
      .ok (fd, peer, setNonBlockAndCloseOnExec sys fd errno) := by
  unfold accept
  simp only
  rw [if_neg (by omega)]

/-- A failed `::accept` always ends in `LOG_FATAL`, whatever its errno was: the `fcntl` calls on the
    descriptor `-1` have replaced it by `EBADF` when the `switch` reads it. -/
theorem accept_err (sys : System) (e : Errno) (addr : SockAddrIn) (errno : Errno) :
    accept sys (.err e) addr errno = .error ⟨"unexpected error of ::accept ", EBADF⟩ := by
  unfold accept
  simp only [setNonBlockAndCloseOnExec_negative sys (show (-1 : ℤ) < 0 by decide)]
  rw [if_pos (by decide), if_neg (by decide), if_pos (by decide)]

end sockets

end WwjMuduo
