import Mathlib.Data.List.Forall2
import WwjMuduo.Lib.Run
import WwjMuduo.SocketsOps

set_option autoImplicit false

/-! # Acceptor

`Acceptor::handleRead` accepts one connection for each readable event of the listening socket and hands
it to `newConnectionCallback_`. A run is a sequence of these calls, each with the outcome of its
`::accept` and the system around it; once the process has aborted there is no further call.

A failing `::accept` never gets past `sockets::accept`: by the time its errno is read it is `EBADF`, so
the run is as it should be exactly if no `::accept` fails. -/

namespace WwjMuduo

namespace Socket

/-- `Socket::accept`: the address is taken over only from a successful call. -/
def accept (sys : System) (outcome : AcceptOutcome) (peeraddr : InetAddress) (errno : Errno) :
    Except Fatal (ℤ × InetAddress × Errno) :=
  match sockets.accept sys outcome SockAddrIn.zero errno with
  | .error fatal => .error fatal
  | .ok (connfd, addr, errno) =>
    .ok (connfd, if 0 ≤ connfd then peeraddr.setSockAddrInet addr else peeraddr, errno)

end Socket

/-- The acceptor and what it has done: `returned` are the results of `sockets::accept` with the `errno`
    they left, `delivered` the calls of `newConnectionCallback_`, `closed` the descriptors closed
    for want of a callback. -/
structure Acceptor where
  newConnectionCallback_ : Bool
  errno : Errno
  returned : List (ℤ × Errno)
  delivered : List (ℤ × InetAddress)
  closed : List ℤ
  aborted : Option Fatal

namespace Acceptor

/-- An acceptor that has not been called, with or without a callback. -/
def start (callback : Bool) (errno : Errno) : Acceptor :=
  { newConnectionCallback_ := callback, errno := errno, returned := [], delivered := [], closed := [],
    aborted := none }

/-- One call of `Acceptor::handleRead`. -/
def handleRead (a : Acceptor) (e : AcceptOutcome × System) : Option Acceptor :=
  if a.aborted.isSome then none
  else
    let peerAddr := InetAddress.ofPort 0
    match Socket.accept e.2 e.1 peerAddr a.errno with
    | .error fatal => some { a with aborted := some fatal }
    | .ok (connfd, peerAddr, errno) =>
      let a := { a with errno := errno, returned := a.returned ++ [(connfd, errno)] }
      if 0 ≤ connfd then
        if a.newConnectionCallback_ then
          some { a with delivered := a.delivered ++ [(connfd, peerAddr)] }
        else
          some { a with closed := a.closed ++ [connfd] }
      else
        some a

/-- The connections of the successful calls, in order. -/
def connections : List (AcceptOutcome × System) → List (ℤ × InetAddress)
  | [] => []
  | (.ok fd peer, _) :: es => ((fd : ℤ), ⟨peer⟩) :: connections es
  | (.err _, _) :: es => connections es

/-- What `sockets::accept` owes its caller for an outcome of `::accept`. -/
def Returns (outcome : AcceptOutcome) (result : ℤ × Errno) : Prop :=
  match outcome with
  | .ok fd _ => result.1 = fd
  | .err errno => result = (-1, errno)

/-- A sequence of calls goes as it should: the process survives it, `sockets::accept` returns what it
    owes for each outcome, and each connection is delivered once, or closed if there is no callback. -/
def Serves (callback : Bool) (errno : Errno) (es : List (AcceptOutcome × System)) : Prop :=
  ∃ a, Run.run handleRead (start callback errno) es = some a ∧ a.aborted = none ∧
    List.Forall₂ (fun e r => Returns e.1 r) es a.returned ∧
    a.delivered = (if callback then connections es else []) ∧
    a.closed = (if callback then [] else (connections es).map Prod.fst)

/-! ## One call -/

theorem handleRead_aborted {a : Acceptor} (h : a.aborted ≠ none) (e : AcceptOutcome × System) :
    a.handleRead e = none := by
  unfold handleRead
  rw [if_pos (Option.isSome_iff_ne_none.2 h)]

theorem handleRead_ok {a : Acceptor} (h : a.aborted = none) (fd : ℕ) (peer : SockAddrIn)
    (sys : System) : ∃ a', a.handleRead (.ok fd peer, sys) = some a' ∧ a'.aborted = none ∧
      a'.newConnectionCallback_ = a.newConnectionCallback_ ∧
      (∃ errno, a'.returned = a.returned ++ [((fd : ℤ), errno)]) ∧
      a'.delivered = a.delivered ++ (if a.newConnectionCallback_ then [((fd : ℤ), ⟨peer⟩)] else []) ∧
      a'.closed = a.closed ++ (if a.newConnectionCallback_ then [] else [(fd : ℤ)]) := by
  unfold handleRead Socket.accept
  rw [sockets.accept_ok, h]
  simp only [Option.isSome_none, Bool.false_eq_true, if_false, Int.natCast_nonneg, if_true]
  cases hcb : a.newConnectionCallback_ with
  | true => exact ⟨_, rfl, rfl, rfl, ⟨_, rfl⟩, rfl, (List.append_nil _).symm⟩
  | false => exact ⟨_, rfl, rfl, rfl, ⟨_, rfl⟩, (List.append_nil _).symm, rfl⟩

theorem handleRead_err {a : Acceptor} (h : a.aborted = none) (e : Errno) (sys : System) :
    a.handleRead (.err e, sys) =
      some { a with aborted := some ⟨"unexpected error of ::accept ", EBADF⟩ } := by
  unfold handleRead Socket.accept
  rw [sockets.accept_err, h]
  simp only [Option.isSome_none, Bool.false_eq_true, if_false]

/-! ## Whole runs -/

/-- A run that the process survives has met no failing `::accept`. -/
theorem run_survives {es : List (AcceptOutcome × System)} {a a' : Acceptor}
    (hrun : Run.run handleRead a es = some a') (h' : a'.aborted = none) :
    ∀ e ∈ es, ∃ fd peer, e.1 = .ok fd peer := by
  induction es generalizing a with
  | nil => exact fun e he => absurd he List.not_mem_nil
  | cons e es ih =>
      obtain ⟨a₁, h₁, hrest⟩ := Run.run_cons_eq_some.1 hrun
      have ha : a.aborted = none := by
        by_contra hne
        rw [handleRead_aborted hne] at h₁
        exact absurd h₁ (by simp)
      obtain ⟨outcome, sys⟩ := e
      cases outcome with
      | ok fd peer =>
          intro e he
          rcases List.mem_cons.1 he with rfl | he
          · exact ⟨fd, peer, rfl⟩
          · exact ih hrest e he
      | err errno =>
          -- the process has aborted: nothing follows, and the last state says so
          rw [handleRead_err ha, Option.some.injEq] at h₁
          subst h₁
          cases es with
          | nil =>
              obtain rfl := Option.some.inj hrest
              exact absurd h' (by simp)
          | cons f fs =>
              obtain ⟨a₂, h₂, -⟩ := Run.run_cons_eq_some.1 hrest
              rw [handleRead_aborted (by simp)] at h₂
              exact absurd h₂ (by simp)

/-- A run of successful calls delivers or closes every connection, on top of what was done before. -/
theorem run_ok {es : List (AcceptOutcome × System)} (hes : ∀ e ∈ es, ∃ fd peer, e.1 = .ok fd peer)
    {a : Acceptor} (h : a.aborted = none) :
    ∃ a' results, Run.run handleRead a es = some a' ∧ a'.aborted = none ∧
      a'.returned = a.returned ++ results ∧ List.Forall₂ (fun e r => Returns e.1 r) es results ∧
      a'.delivered = a.delivered ++ (if a.newConnectionCallback_ then connections es else []) ∧
      a'.closed = a.closed ++
        (if a.newConnectionCallback_ then [] else (connections es).map Prod.fst) := by
  induction es generalizing a with
  | nil =>
      refine ⟨a, [], rfl, h, (List.append_nil _).symm, List.Forall₂.nil, ?_, ?_⟩
      · cases a.newConnectionCallback_ <;> simp [connections]
      · cases a.newConnectionCallback_ <;> simp [connections]
  | cons e es ih =>
      obtain ⟨outcome, sys⟩ := e
      obtain ⟨fd, peer, hok⟩ := hes (outcome, sys) List.mem_cons_self
      change outcome = _ at hok
      subst hok
      obtain ⟨a₁, h₁, hab, hcb, ⟨errno, hret⟩, hdel, hclo⟩ := handleRead_ok h fd peer sys
      obtain ⟨a', results, hrun, hab', hret', hall, hdel', hclo'⟩ :=
        ih (fun e he => hes e (List.mem_cons_of_mem _ he)) hab
      refine ⟨a', ((fd : ℤ), errno) :: results, Run.run_cons_eq_some.2 ⟨a₁, h₁, hrun⟩, hab', ?_,
        List.Forall₂.cons rfl hall, ?_, ?_⟩
      · rw [hret', hret, List.append_assoc]
        rfl
      · rw [hdel', hdel, hcb]
        cases a.newConnectionCallback_ <;> simp [connections]
      · rw [hclo', hclo, hcb]
        cases a.newConnectionCallback_ <;> simp [connections]

/-- **Accept path.** A sequence of calls goes as it should exactly if no `::accept` in it fails,
    whatever the errno of the failure. -/
theorem serves_iff (callback : Bool) (errno : Errno) (es : List (AcceptOutcome × System)) :
    Serves callback errno es ↔ ∀ e ∈ es, ∃ fd peer, e.1 = .ok fd peer := by
  refine ⟨fun ⟨a, hrun, hab, _⟩ => run_survives hrun hab, fun hes => ?_⟩
  obtain ⟨a, results, hrun, hab, hret, hall, hdel, hclo⟩ :=
    run_ok hes (a := start callback errno) rfl
  refine ⟨a, hrun, hab, ?_, ?_, ?_⟩
  · rw [hret]
    exact hall
  · rw [hdel]
    rfl
  · rw [hclo]
    rfl

/-- One `::accept` that fails with `EAGAIN`, which the `switch` means to survive, aborts the process:
    `savedErrno` is the `EBADF` of `fcntl(-1, ..)`. -/
theorem serves_fails_on_EAGAIN :
    ∃ sys : System, EAGAIN ∈ sockets.survivable ∧
      (∃ a, Run.run handleRead (start true 0) [(.err EAGAIN, sys)] = some a ∧
        a.aborted = some ⟨"unexpected error of ::accept ", EBADF⟩) ∧
      ¬ Serves true 0 [(.err EAGAIN, sys)] := by
  let sys : System :=
    { fcntl := fun fd _ _ errno => if fd < 0 then (-1, EBADF) else (0, errno)
      fcntl_negative := fun fd _ _ _ h => if_pos h
      logSyserr := fun errno => errno }
  have hrun : Run.run handleRead (start true 0) [(.err EAGAIN, sys)] =
      some { start true 0 with aborted := some ⟨"unexpected error of ::accept ", EBADF⟩ } := by
    rw [Run.run_singleton, handleRead_err rfl]
  refine ⟨sys, by decide, ⟨_, hrun, rfl⟩, ?_⟩
  rintro ⟨a, ha, hab, -⟩
  rw [hrun, Option.some.injEq] at ha
  rw [← ha] at hab
  exact absurd hab (by simp)

end Acceptor

end WwjMuduo
