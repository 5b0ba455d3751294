import WwjMuduo.Poller.IndexTable
import WwjMuduo.TcpServer.Members

set_option autoImplicit false

/-! # The invariant of a server

`Sound s q` describes the states a started server reaches, when `q` lists the functors that each loop
has still to call. Every connection stays in the server's map and, once `connectEstablished` has run,
in the poller of its loop; before, `connectEstablished` waits in the queue of that loop. Nothing in
the queues removes a connection, since nothing ever calls a close callback. -/

namespace WwjMuduo

namespace TcpServer

/-- `connectEstablished` has run, and the channel has its place in the poller. -/
def Established (s : TcpServer) (c : ConnId) : Prop := 0 ≤ (s.conn c).channel_.index_

/-- The functors a loop has still to call. -/
def queue (s : TcpServer) (l : LoopId) : List EventLoop.Functor :=
  (s.loops l).functors ++ (s.loops l).pendingFunctors_

/-- The queues of the loops, and a functor that is being called on one of them. -/
def hand (s : TcpServer) (l : LoopId) (f : EventLoop.Functor) (l' : LoopId) :
    List EventLoop.Functor :=
  if l' = l then f :: s.queue l' else s.queue l'

/-- The connections whose channels the poller of a loop holds. -/
def registered (s : TcpServer) (l : LoopId) : Set ConnId :=
  {c | c < s.made ∧ (s.conn c).loop_ = l ∧ s.Established c}

/-- The poller waits for the descriptor of a connection to be readable. -/
def Watched (s : TcpServer) (c : ConnId) : Prop :=
  (s.conn c).channel_.Reads ∧ ∃ pfd, (s.polling (s.conn c).loop_).entry c = some pfd ∧
    pfd.fd = (s.conn c).channel_.fd_

/-- A connection between `connectEstablished` and `connectDestroyed`. -/
structure Running (s : TcpServer) (c : ConnId) : Prop where
  state : (s.conn c).state_ = .kConnected ∨ (s.conn c).state_ = .kDisconnecting
  callbacks : (s.conn c).effects.count .connectionCallback = 1
  watched : c ∉ s.closed → s.Watched c

/-- The functors that can wait for a loop. -/
def Valid (s : TcpServer) (l : LoopId) : EventLoop.Functor → Prop
  | .connectEstablished c => c < s.made ∧ (s.conn c).loop_ = l ∧ ¬ s.Established c
  | .sendInLoop c _ | .shutdownInLoop c => c < s.made ∧ (s.conn c).loop_ = l ∧ s.Established c
  | .connectDestroyed _ | .removeConnectionInLoop _ => False

/-- What holds of a connection that has been made, while the functors in `q` wait. -/
structure Lives (s : TcpServer) (q : LoopId → List EventLoop.Functor) (c : ConnId) : Prop where
  name : (s.conn c).name_ = connName s.name_ (c + 1)
  present : s.connections_.lookup (s.conn c).name_ = some c
  fd_nonneg : 0 ≤ (s.conn c).socket_
  fd : (s.conn c).channel_.fd_ = (s.conn c).socket_
  running : s.Established c → s.Running c
  fresh : ¬ s.Established c → .connectionCallback ∉ (s.conn c).effects
  waiting : ¬ s.Established c → (q (s.conn c).loop_).count (.connectEstablished c) = 1

structure Sound (s : TcpServer) (q : LoopId → List EventLoop.Functor) : Prop where
  counter : s.nextConnId_ = s.made + 1
  lives : ∀ c < s.made, s.Lives q c
  fd_inj : ∀ c < s.made, ∀ d < s.made, (s.conn c).socket_ = (s.conn d).socket_ → c = d
  table : ∀ l, (s.polling l).IndexTable (s.registered l)
  valid : ∀ l, ∀ f ∈ q l, s.Valid l f
  closed : ∀ c ∈ s.closed, c < s.made

/-! ## Names -/

theorem connName_injective {name : String} {c d : ℕ}
    (h : connName name (c + 1) = connName name (d + 1)) : c = d := by
  have hrepr (n : ℕ) : toString ((n : ℤ) + 1) = Nat.repr (n + 1) := rfl
  have hlist := congrArg String.toList h
  simp only [connName, hrepr, String.toList_append, List.append_cancel_left_eq,
    Nat.toList_repr] at hlist
  have hval := congrArg (fun l => Nat.ofDigitChars 10 l 0) hlist
  simp only [Nat.ofDigitChars_ten_toDigits] at hval
  omega

/-! ## Queues -/

section Hand

variable {s : TcpServer} {l l' : LoopId} {f g : EventLoop.Functor}

theorem mem_hand : g ∈ s.hand l f l' ↔ (l' = l ∧ g = f) ∨ g ∈ s.queue l' := by
  unfold hand
  split_ifs with h
  · simp [h]
  · simp [h]

theorem count_hand_of_ne (h : g ≠ f) : (s.hand l f l').count g = (s.queue l').count g := by
  unfold hand
  split_ifs
  · exact List.count_cons_of_ne (Ne.symm h)
  · rfl

theorem count_hand_self : (s.hand l f l).count f = (s.queue l).count f + 1 := by
  rw [hand, if_pos rfl]
  exact List.count_cons_self

/-- A functor at the end of its queue is as good as one in the hand. -/
theorem queue_queueInLoop_perm : ((s.queueInLoop l f).queue l').Perm (s.hand l f l') := by
  unfold hand queue queueInLoop
  split_ifs with h
  · subst h
    rw [setLoop_self, ← List.append_assoc]
    exact List.perm_append_singleton ..
  · rw [setLoop_of_ne _ _ h]

end Hand

/-- The entry of a connection depends on its index and on the array of the poller. -/
theorem entry_congr {s s' : TcpServer} {l : LoopId} {c : ConnId}
    (hpollfds : (s'.loops l).poller_.pollfds_ = (s.loops l).poller_.pollfds_)
    (hindex : (s'.conn c).channel_.index_ = (s.conn c).channel_.index_) :
    (s'.polling l).entry c = (s.polling l).entry c := by
  unfold Polling.entry polling
  simp only
  rw [hpollfds, hindex]

/-- A functor stays valid while connections stay on their loops and are established in turn. -/
theorem Valid.mono {s s' : TcpServer} {l : LoopId} {f : EventLoop.Functor} (h : s.Valid l f)
    (hmade : s.made ≤ s'.made) (hloop : ∀ c < s.made, (s'.conn c).loop_ = (s.conn c).loop_)
    (hestablished : ∀ c < s.made, s.Established c → s'.Established c)
    (hwaits : ∀ c < s.made, f = .connectEstablished c → s'.Established c → s.Established c) :
    s'.Valid l f := by
  cases f with
  | connectEstablished c =>
      exact ⟨h.1.trans_le hmade, (hloop c h.1).trans h.2.1, fun he => h.2.2 (hwaits c h.1 rfl he)⟩
  | connectDestroyed c => exact h
  | removeConnectionInLoop c => exact h
  | sendInLoop c message =>
      exact ⟨h.1.trans_le hmade, (hloop c h.1).trans h.2.1, hestablished c h.1 h.2.2⟩
  | shutdownInLoop c =>
      exact ⟨h.1.trans_le hmade, (hloop c h.1).trans h.2.1, hestablished c h.1 h.2.2⟩

/-- A connection stays watched if it is left alone and its entry too. -/
theorem Watched.congr {s s' : TcpServer} {c : ConnId} (h : s.Watched c)
    (hconn : s'.conn c = s.conn c) (hentry :
      (s'.polling (s.conn c).loop_).entry c = (s.polling (s.conn c).loop_).entry c) :
    s'.Watched c := by
  rw [Watched, hconn, hentry]
  exact h

/-- A connection lives on if it is left alone and its `connectEstablished` still waits. -/
theorem Lives.congr {s s' : TcpServer} {q q' : LoopId → List EventLoop.Functor} {c : ConnId}
    (H : s.Lives q c) (hname : s'.name_ = s.name_)
    (hlookup : s'.connections_.lookup (s.conn c).name_ = some c) (hconn : s'.conn c = s.conn c)
    (hwatched : s.Established c → s.Watched c → s'.Watched c)
    (hclosed : c ∉ s'.closed → c ∉ s.closed)
    (hwaiting : (q' (s.conn c).loop_).count (.connectEstablished c) =
      (q (s.conn c).loop_).count (.connectEstablished c)) : s'.Lives q' c := by
  have hestablished : s'.Established c ↔ s.Established c := by
    rw [Established, hconn, Established]
  constructor
  case name =>
    rw [hconn, hname]
    exact H.name
  case present =>
    rw [hconn]
    exact hlookup
  case fd_nonneg =>
    rw [hconn]
    exact H.fd_nonneg
  case fd =>
    rw [hconn]
    exact H.fd
  case running =>
    intro he
    have R := H.running (hestablished.1 he)
    refine ⟨by rw [hconn]; exact R.state, by rw [hconn]; exact R.callbacks, fun hopen => ?_⟩
    exact hwatched (hestablished.1 he) (R.watched (hclosed hopen))
  case fresh =>
    intro he
    rw [hconn]
    exact H.fresh fun h => he (hestablished.2 h)
  case waiting =>
    intro he
    rw [hconn, hwaiting]
    exact H.waiting fun h => he (hestablished.2 h)

/-! ## What keeps the invariant -/

namespace Sound

variable {s s' : TcpServer} {q q' : LoopId → List EventLoop.Functor} {c d : ConnId} {l : LoopId}
  {f : EventLoop.Functor} {conn : TcpConnection}

/-- It matters which functors wait, and not in which order; and of `connectEstablished`, how often. -/
theorem requeue (S : Sound s q) (hvalid : ∀ l, ∀ f ∈ q' l, s.Valid l f)
    (hcount : ∀ l c, (q' l).count (.connectEstablished c) = (q l).count (.connectEstablished c)) :
    Sound s q' := by
  refine { S with lives := fun c hc => ?_, valid := hvalid }
  have H := S.lives c hc
  exact H.congr rfl H.present rfl (fun _ h => h) (fun h => h) (hcount _ c)

theorem perm (S : Sound s q) (h : ∀ l, (q' l).Perm (q l)) : Sound s q' :=
  S.requeue (fun l f hf => S.valid l f ((h l).mem_iff.1 hf)) fun l _ => (h l).count_eq _

/-- A functor other than `connectEstablished` may be added, and may be called. -/
theorem hand (S : Sound s s.queue) (hf : s.Valid l f) (hne : ∀ c, f ≠ .connectEstablished c) :
    Sound s (s.hand l f) := by
  refine S.requeue (fun l' g hg => ?_) fun _ c => count_hand_of_ne (Ne.symm (hne c))
  rcases mem_hand.1 hg with ⟨rfl, rfl⟩ | hg
  · exact hf
  · exact S.valid l' g hg

theorem drop (S : Sound s (s.hand l f)) (hne : ∀ c, f ≠ .connectEstablished c) :
    Sound s s.queue :=
  S.requeue (fun l' g hg => S.valid l' g (mem_hand.2 (.inr hg))) fun _ c =>
    (count_hand_of_ne (Ne.symm (hne c))).symm

/-- The functors of a loop are no part of the invariant but in `q`. -/
theorem setLoop (S : Sound s q) {loop : EventLoop} (h : loop.poller_ = (s.loops l).poller_) :
    Sound (s.setLoop l loop) q := by
  have hpolling : ∀ l', (s.setLoop l loop).polling l' = s.polling l' := by
    intro l'
    unfold polling
    by_cases hl : l' = l
    · rw [hl, setLoop_self, h]
      rfl
    · rw [setLoop_of_ne s loop hl]
      rfl
  refine { S with lives := fun c hc => ?_, table := fun l' => ?_ }
  · have H := S.lives c hc
    exact H.congr rfl H.present rfl (fun _ h => h.congr rfl (by rw [hpolling])) (fun h => h) rfl
  · rw [hpolling l']
    exact S.table l'

theorem markClosed (S : Sound s q) (hc : c < s.made) : Sound (s.markClosed c) q := by
  refine { S with lives := fun d hd => ?_, closed := fun d hd => ?_ }
  · have H := S.lives d hd
    exact H.congr rfl H.present rfl (fun _ h => h) (fun h hd => h (List.mem_cons_of_mem c hd)) rfl
  · rcases List.mem_cons.1 hd with rfl | hd
    · exact hc
    · exact S.closed d hd

/-- The invariant of the server as a whole, when no connection is made and none changes its place. -/
theorem keep (S : Sound s q) (hnextConnId : s'.nextConnId_ = s.nextConnId_)
    (hmade : s'.made = s.made) (hclosed : s'.closed = s.closed)
    (place : ∀ d, (s.conn d).SamePlace (s'.conn d))
    (htable : ∀ l, (s'.polling l).IndexTable (s.registered l))
    (hlives : ∀ d < s.made, s'.Lives q d) : Sound s' q := by
  have hiff : ∀ d, s'.Established d ↔ s.Established d := by
    intro d
    rw [Established, (place d).index, Established]
  constructor
  case counter =>
    rw [hnextConnId, hmade]
    exact S.counter
  case lives =>
    rw [hmade]
    exact hlives
  case fd_inj =>
    intro d hd e he h
    rw [hmade] at hd he
    rw [(place d).socket, (place e).socket] at h
    exact S.fd_inj d hd e he h
  case table =>
    intro l
    have hreg : s'.registered l = s.registered l := by
      ext d
      rw [registered, registered, Set.mem_ofPred_eq, Set.mem_ofPred_eq, (place d).loop, hiff, hmade]
    rw [hreg]
    exact htable l
  case valid =>
    intro l f hf
    exact (S.valid l f hf).mono hmade.ge (fun d _ => (place d).loop) (fun d _ => (hiff d).2)
      fun d _ _ => (hiff d).1
  case closed =>
    rw [hclosed, hmade]
    exact S.closed

/-- A change of an established connection that leaves it where it is. -/
theorem setConn (S : Sound s q) (hc : c ∈ s.registered l) (hplace : (s.conn c).SamePlace conn)
    (hstate : conn.state_ = .kConnected ∨ conn.state_ = .kDisconnecting)
    (hcallbacks : conn.effects.count .connectionCallback =
      (s.conn c).effects.count .connectionCallback)
    (hreads : c ∉ s.closed → (s.conn c).channel_.Reads → conn.channel_.Reads) :
    Sound (s.setConn c conn) q := by
  obtain ⟨hmade, hloop, hestablished⟩ := hc
  have place : ∀ d, (s.conn d).SamePlace ((s.setConn c conn).conn d) := by
    intro d
    by_cases hd : d = c
    · subst hd
      rw [setConn_self]
      exact hplace
    · rw [setConn_of_ne s conn hd]
      exact .refl _
  have hentry : ∀ d l, ((s.setConn c conn).polling l).entry d = (s.polling l).entry d :=
    fun d l => entry_congr rfl (place d).index
  refine S.keep rfl rfl rfl place
    (fun l => (S.table l).congr rfl fun d _ => ⟨(place d).fd, (place d).index⟩) fun d hd => ?_
  have H := S.lives d hd
  by_cases hdc : d = c
  · subst hdc
    have R := H.running hestablished
    have he : (s.setConn d conn).Established d := by
      rw [Established, (place d).index]
      exact hestablished
    refine ⟨?_, ?_, ?_, ?_, fun _ => ⟨?_, ?_, fun hopen => ⟨?_, ?_⟩⟩, fun h => absurd he h,
      fun h => absurd he h⟩
    · rw [(place d).name]
      exact H.name
    · rw [(place d).name]
      exact H.present
    · rw [(place d).socket]
      exact H.fd_nonneg
    · rw [(place d).fd, (place d).socket]
      exact H.fd
    · rw [setConn_self]
      exact hstate
    · rw [setConn_self, hcallbacks]
      exact R.callbacks
    · rw [setConn_self]
      exact hreads hopen (R.watched hopen).1
    · rw [(place d).loop, (place d).fd, hentry]
      exact (R.watched hopen).2
  · have hsame : (s.setConn c conn).conn d = s.conn d := setConn_of_ne s conn hdc
    exact H.congr rfl H.present hsame (fun _ h => h.congr hsame (hentry d _)) (fun h => h) rfl

end Sound

/-! ## The poller -/

section SetPolling

variable {s : TcpServer} {l l' : LoopId} {p : Polling ConnId}

theorem polling_setPolling_self : (s.setPolling l p).polling l = p := by
  unfold polling
  rw [show (s.setPolling l p).loops l = _ from setLoop_self ..]
  rfl

theorem loops_setPolling_of_ne (h : l' ≠ l) : (s.setPolling l p).loops l' = s.loops l' :=
  setLoop_of_ne s _ h

theorem conn_setPolling (h : p.channel = (s.polling l).channel) :
    (s.setPolling l p).conn = s.conn := by
  funext d
  show { s.conn d with channel_ := p.channel d } = s.conn d
  rw [h]
  rfl

theorem queue_setPolling : (s.setPolling l p).queue = s.queue := by
  funext l'
  by_cases h : l' = l
  · subst h
    rw [queue, show (s.setPolling l' p).loops l' = _ from setLoop_self ..]
    rfl
  · rw [queue, loops_setPolling_of_ne h]
    rfl

end SetPolling

/-- `s` is sound, and `c` is established on loop `l`; the loops' queues are `r`. -/
structure Serving (q r : LoopId → List EventLoop.Functor) (l : LoopId) (c : ConnId)
    (s : TcpServer) : Prop where
  sound : Sound s q
  registered : c ∈ s.registered l
  queue : s.queue = r

namespace Serving

variable {s s' : TcpServer} {q r : LoopId → List EventLoop.Functor} {l l' : LoopId} {c : ConnId}

/-- Updating the channel of an established connection changes its own entry only, and keeps the
    descriptor in it if the channel still reads. -/
theorem updateChannel (H : Serving q r l c s) (h : s.perform l' c .updateChannel = some s') :
    Serving q r l c s' := by
  obtain ⟨S, hc, hqueue⟩ := H
  have hloop : (s.conn c).loop_ = l := hc.2.1
  obtain ⟨p, hp, hT, hchannel, -⟩ := (S.table l).updateChannel_old hc
  obtain rfl : s.setPolling l p = s' := by
    simp only [perform, hloop, hp] at h
    exact Option.some.inj h
  have hconn : (s.setPolling l p).conn = s.conn := conn_setPolling hchannel
  have hpolling : ∀ l' ≠ l, (s.setPolling l p).polling l' = s.polling l' := by
    intro l' hne
    rw [polling, loops_setPolling_of_ne hne, hconn]
    rfl
  refine ⟨S.keep rfl rfl rfl (fun d => ?_) (fun l' => ?_) fun d hd => ?_, ?_,
    queue_setPolling.trans hqueue⟩
  · rw [hconn]
    exact .refl _
  · by_cases hl : l' = l
    · subst hl
      rw [polling_setPolling_self]
      exact hT
    · rw [hpolling l' hl]
      exact S.table l'
  · have H := S.lives d hd
    have hsame : (s.setPolling l p).conn d = s.conn d := by rw [hconn]
    refine H.congr rfl H.present hsame (fun he hwatched => ?_) (fun h => h) rfl
    by_cases hne : (s.conn d).loop_ = l
    · by_cases hdc : d = c
      · subst hdc
        -- A channel that reads has interest, so `updateChannel` leaves the descriptor in its entry.
        obtain ⟨hreads, pfd, hpfd, hfd⟩ := hwatched
        rw [hne] at hpfd
        rw [Watched, hsame, hne, polling_setPolling_self]
        refine ⟨hreads, _, Polling.entry_updateChannel_old hpfd hp, ?_⟩
        rw [show ((s.polling l).channel d).isNoneEvent = false from hreads.isNoneEvent]
        exact hfd
      · refine hwatched.congr hsame ?_
        rw [hne, polling_setPolling_self]
        exact Polling.entry_updateChannel_of_ne (S.table l) ⟨hd, hne, he⟩ hdc (.inl hc) hp
    · refine hwatched.congr hsame ?_
      rw [hpolling _ hne]
  · refine ⟨hc.1, ?_, ?_⟩
    · rw [hconn]
      exact hc.2.1
    · rw [Established, hconn]
      exact hc.2.2

theorem perform (H : Serving q r l c s) {e : Effect} (he : e.leavesConnection = false)
    (h : s.perform l' c e = some s') : Serving q r l c s' := by
  cases e with
  | updateChannel => exact H.updateChannel h
  | removeChannel => exact absurd he (by decide)
  | closeCallback => exact absurd he (by decide)
  | _ =>
      obtain rfl : s = s' := Option.some.inj h
      exact H

/-- A member that only handles keeps the invariant, whatever effects it has. -/
theorem invoke (H : Serving q r l c s) (member : TcpConnection → Option TcpConnection)
    (closes : Bool) (hcloses : closes = true → c ∈ s.closed)
    (hmember : ∀ conn', member (s.conn c) = some conn' → (s.conn c).Handles closes conn')
    (h : s.invoke l' c member = some s') : Serving q r l c s' := by
  obtain ⟨conn', hconn', hrun⟩ := Option.bind_eq_some_iff.1 h
  have hhandles := hmember conn' hconn'
  obtain ⟨made, heffects, hmade⟩ := hhandles.effects
  rw [heffects, List.drop_left] at hrun
  obtain ⟨S, hc, hqueue⟩ := H
  -- First the object changes, then its calls out of the object run, in order.
  have hset : Serving q r l c (s.setConn c conn') := by
    refine ⟨S.setConn hc hhandles.place ?_ hhandles.count_connectionCallback ?_, ?_, hqueue⟩
    · rw [hhandles.state]
      exact ((S.lives c hc.1).running hc.2.2).state
    · intro hopen
      exact hhandles.reads (Bool.eq_false_iff.2 fun h => hopen (hcloses h))
    · refine ⟨hc.1, ?_, ?_⟩
      · rw [setConn_self, hhandles.place.loop]
        exact hc.2.1
      · rw [Established, setConn_self, hhandles.place.index]
        exact hc.2.2
  exact Run.inv_run_of (fun t e t' he ht => ht.perform he) hmade hset hrun

end Serving

end TcpServer

end WwjMuduo
