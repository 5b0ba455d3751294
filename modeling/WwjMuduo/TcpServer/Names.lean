import WwjMuduo.InetAddress
import WwjMuduo.TcpServer.Registry

set_option autoImplicit false

/-! # Names of connections

A server is called by the text of the address it listens at, and its connections by that name, a `#`
and a number. In the log of a process with several servers the name is all there is of a connection, and
it is enough: it tells the server and the connection. -/

namespace WwjMuduo

/-- The bytes of a C string as the characters of a `std::string`. -/
def Text.chars (t : Text) : String := String.ofList (t.val.map Char.ofUInt8)

namespace TcpServer

/-- `name_(listenAddr.toHostPort())`. -/
def nameOf (listenAddr : InetAddress) : String := listenAddr.toHostPort.chars

example : connName (nameOf (.ofIp (ascii "192.168.0.9") 2007)) 1 = "192.168.0.9:2007#1" := by
  decide +kernel

theorem ofUInt8_injective : Function.Injective Char.ofUInt8 := by
  intro a b h
  have hval : (Char.ofUInt8 a).val = (Char.ofUInt8 b).val := by rw [h]
  exact UInt8.toUInt32_inj.1 hval

theorem nameOf_inj {a b : InetAddress} (ha : a.addr_.sin_family = AF_INET)
    (hb : b.addr_.sin_family = AF_INET) : nameOf a = nameOf b ↔ a = b := by
  constructor
  · intro h
    have hlist := congrArg String.toList h
    rw [nameOf, nameOf, Text.chars, Text.chars, String.toList_ofList, String.toList_ofList] at hlist
    exact InetAddress.toHostPort_inj ha hb (ofUInt8_injective.list_map hlist)
  · rintro rfl
    rfl

/-- The name of a server has no `#`. -/
theorem hash_not_mem_nameOf (a : InetAddress) : '#' ∉ (nameOf a).toList := by
  have hbyte : '#'.toUInt8 ∉ a.toHostPort.val := by
    have hcolon : '#'.toUInt8 ∉ ascii ":" := by decide
    rw [InetAddress.toHostPort, toHostPort_eq, List.mem_append, List.mem_append]
    exact not_or.2 ⟨not_or.2 ⟨not_mem_inet_ntop (by decide) (by decide) (by decide) _, hcolon⟩,
      not_mem_decimal (by decide) (by decide) _⟩
  rw [nameOf, Text.chars, String.toList_ofList]
  intro h
  obtain ⟨b, hb, hchar⟩ := List.mem_map.1 h
  have hhash : Char.ofUInt8 '#'.toUInt8 = '#' := rfl
  rw [← hhash] at hchar
  rw [ofUInt8_injective hchar] at hb
  exact hbyte hb

/-- Two names that differ before the `#`, or behind it, differ. -/
theorem connName_inj {name name' : String} (hname : '#' ∉ name.toList) {c d : ℕ} :
    connName name (c + 1) = connName name' (d + 1) ↔ name = name' ∧ c = d := by
  constructor
  · intro h
    have hrepr (n : ℕ) : toString ((n : ℤ) + 1) = Nat.repr (n + 1) := rfl
    have hhash : "#".toList = ['#'] := rfl
    have hdigits : '#' ∉ Nat.toDigits 10 (c + 1) := by
      intro hmem
      have hdigit := Nat.isDigit_of_mem_toDigits (by decide) (by decide) hmem
      exact absurd hdigit (by decide)
    have hlist := congrArg String.toList h
    simp only [connName, hrepr, String.toList_append, Nat.toList_repr, hhash,
      List.singleton_append] at hlist
    obtain ⟨hbefore, -, -⟩ := (List.append_cons_inj_of_notMem hname hdigits).1 hlist
    obtain rfl := String.toList_inj.1 hbefore
    exact ⟨rfl, connName_injective h⟩
  · rintro ⟨rfl, rfl⟩
    rfl

/-- A connection keeps the name that `newConnection` has given it. -/
theorem name_of_connection {name : String} {numThreads : ℕ} {events : List Event} {s : TcpServer}
    (h : Run.run step (start name numThreads) events = some s) {c : ConnId} (hc : c < s.made) :
    (s.conn c).name_ = connName name (c + 1) := by
  have haccepted : ∃ k, Accepted name numThreads k s := by
    refine Run.inv_run (I := fun s => ∃ k, Accepted name numThreads k s) ?_
      ⟨0, accepted_start name numThreads⟩ h
    rintro s e s' ⟨k, A⟩ hs
    exact ⟨_, A.exec (Run.restrict_eq_some.1 hs).2⟩
  obtain ⟨k, A⟩ := haccepted
  rw [← A.name_]
  exact ((sound_run h).lives c hc).name

/-- **A name tells the connection.** Two servers of a process, each in any state it can reach, have
    given two connections the same name if and only if they listen at the same address and the
    connections are, for their servers, the same one. -/
theorem names_tell {a b : InetAddress} (ha : a.addr_.sin_family = AF_INET)
    (hb : b.addr_.sin_family = AF_INET) {numThreads numThreads' : ℕ} {events events' : List Event}
    {s t : TcpServer} (hs : Run.run step (start (nameOf a) numThreads) events = some s)
    (ht : Run.run step (start (nameOf b) numThreads') events' = some t) {c d : ConnId}
    (hc : c < s.made) (hd : d < t.made) :
    (s.conn c).name_ = (t.conn d).name_ ↔ a = b ∧ c = d := by
  rw [name_of_connection hs hc, name_of_connection ht hd, connName_inj (hash_not_mem_nameOf a),
    nameOf_inj ha hb]

/-- Two servers, at an address of this machine and at any, have each accepted a connection. -/
theorem names_tell_two : ∃ a b : InetAddress, ∃ s t : TcpServer,
    s.connections_.lookup "127.0.0.1:80#1" = some 0 ∧
    t.connections_.lookup "0.0.0.0:80#1" = some 0 ∧
    ((s.conn 0).name_ = (t.conn 0).name_ ↔ a = b ∧ 0 = 0) := by
  let a := InetAddress.ofIp (ascii "127.0.0.1") 80
  let b := InetAddress.ofPort 80
  let events : List Event := [.newConnection 9 a a (.asMeant a)]
  have hs : ((Run.run step (start (nameOf a) 0) events).map fun s =>
      (s.made, s.connections_.lookup "127.0.0.1:80#1")) = some (1, some 0) := by decide +kernel
  have ht : ((Run.run step (start (nameOf b) 0) events).map fun t =>
      (t.made, t.connections_.lookup "0.0.0.0:80#1")) = some (1, some 0) := by decide +kernel
  obtain ⟨s, hs, hs'⟩ := Option.map_eq_some_iff.1 hs
  obtain ⟨t, ht, ht'⟩ := Option.map_eq_some_iff.1 ht
  obtain ⟨hmade, hlookup⟩ := Prod.mk.inj hs'
  obtain ⟨hmade', hlookup'⟩ := Prod.mk.inj ht'
  exact ⟨a, b, s, t, hlookup, hlookup',
    names_tell (by decide +kernel) (by decide +kernel) hs ht (by rw [hmade]; decide)
      (by rw [hmade']; decide)⟩

end TcpServer

end WwjMuduo
