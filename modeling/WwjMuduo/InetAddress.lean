import WwjMuduo.Logging.Stamp
import WwjMuduo.SocketsOps

set_option autoImplicit false

/-! # Addresses as text

An `InetAddress` is made from the text of an IP address and a port, and turned back into text for the
name of a server and for the log. `inet_pton` reads a dotted quad, octet by octet, and is right about
every string: it accepts exactly the texts that `inet_ntop` writes. What it does not accept is logged
and leaves the address as `bzero` has left it, which is any local address.

The bytes of `sin_addr` are in network order, in the memory of a little-endian machine: the first one
is the lowest. -/

namespace WwjMuduo

/-- The string that `c_str()` points to ends at the first NUL. -/
def c_str (s : List UInt8) : List UInt8 := s.takeWhile (· ≠ 0)

/-! ## The library -/

/-- The byte of `sin_addr` at an offset. -/
def octet (s_addr : UInt32) (i : ℕ) : ℕ := s_addr.toNat / 256 ^ i % 256

/-- The `sin_addr` with these bytes. -/
def ofOctets (os : List ℕ) : UInt32 := UInt32.ofNat (Nat.ofDigits 256 os)

/-- `inet_ntop(AF_INET, ..)`: `%u.%u.%u.%u`. -/
def inet_ntop (s_addr : UInt32) : List UInt8 :=
  decimal (octet s_addr 0) ++ ascii "." ++ decimal (octet s_addr 1) ++ ascii "." ++
    decimal (octet s_addr 2) ++ ascii "." ++ decimal (octet s_addr 3)

/-- The loop of `inet_pton`: the octets that a dot has ended, the one that is being read, and whether
    it has a digit. There may be no more than four, and no zero in front of another digit. -/
def scanOctets (tmp : List ℕ) (octet : ℕ) (saw_digit : Bool) : List UInt8 → Option (List ℕ)
  | [] => if tmp.length + saw_digit.toNat < 4 then none else some (tmp ++ [octet])
  | ch :: src =>
    match digitValue ch with
    | some d =>
      let new := octet * 10 + d
      if saw_digit = true ∧ octet = 0 then none
      else if 255 < new then none
      else if saw_digit = false ∧ 4 < tmp.length + 1 then none
      else scanOctets tmp new true src
    | none =>
      if ch = '.'.toUInt8 ∧ saw_digit = true then
        if tmp.length + 1 = 4 then none else scanOctets (tmp ++ [octet]) 0 false src
      else none

/-- `inet_pton(AF_INET, ..)`. -/
def inet_pton (src : List UInt8) : Option UInt32 := (scanOctets [] 0 false src).map ofOctets

example : inet_pton (ascii "127.0.0.1") = some 0x0100007f := by decide +kernel

/-! ## The source -/

namespace sockets

/-- `ntohs` on a little-endian machine. -/
def networkToHost16 (net16 : UInt16) : UInt16 := (net16 <<< 8) ||| (net16 >>> 8)

/-- `sockets::toHostPort`, into a buffer of 32 bytes. `inet_ntop` does not fail: `host` has room for
    every dotted quad. -/
def toHostPort (addr : SockAddrIn) : Text :=
  let host := inet_ntop addr.sin_addr
  let port := networkToHost16 addr.sin_port
  snprintf (host ++ ascii ":" ++ decimal port.toNat)

/-- `sockets::fromHostPort`. A text that is no address is logged, and `sin_addr` stays. -/
def fromHostPort (ip : List UInt8) (port : UInt16) (addr : SockAddrIn) : SockAddrIn :=
  let addr := { addr with sin_family := AF_INET, sin_port := hostToNetwork16 port }
  match inet_pton ip with
  | some sin_addr => { addr with sin_addr := sin_addr }
  | none => addr

end sockets

namespace InetAddress

/-- `InetAddress(const std::string& ip, uint16_t port)`. -/
def ofIp (ip : List UInt8) (port : UInt16) : InetAddress :=
  ⟨sockets.fromHostPort (c_str ip) port .zero⟩

def toHostPort (a : InetAddress) : Text := sockets.toHostPort a.addr_

end InetAddress

/-! ## Reading what was written -/

/-- A byte is the digit of its value. -/
theorem digitValue_eq_some {c : UInt8} {d : ℕ} :
    digitValue c = some d ↔ d < 10 ∧ c = digitChar d := by
  constructor
  · intro h
    unfold digitValue at h
    split_ifs at h with hc
    rw [UInt8.le_iff_toNat_le, UInt8.le_iff_toNat_le] at hc
    have hzero : '0'.toUInt8.toNat = 48 := rfl
    have hnine : '9'.toUInt8.toNat = 57 := rfl
    rw [hzero, hnine] at hc
    have hsub : (c - '0'.toUInt8).toNat = c.toNat - 48 :=
      UInt8.toNat_sub_of_le _ _ (by rw [UInt8.le_iff_toNat_le, hzero]; exact hc.1)
    obtain rfl := Option.some.inj h
    rw [hsub]
    refine ⟨by omega, ?_⟩
    have hchar : '0'.toNat = 48 := rfl
    rw [digitChar, hchar, show 48 + (c.toNat - 48) = c.toNat by omega, UInt8.ofNat_toNat]
  · rintro ⟨hd, rfl⟩
    exact digitValue_digitChar hd

theorem digitValue_dot : digitValue '.'.toUInt8 = none := by decide

/-- The digits of an octet. -/
theorem scanOctets_decimal {tmp : List ℕ} (htmp : tmp.length < 4) (rest : List UInt8) {o : ℕ}
    (ho : o ≤ 255) :
    scanOctets tmp 0 false (decimal o ++ rest) = scanOctets tmp o true rest := by
  induction o using Nat.strong_induction_on generalizing rest with
  | _ o ih =>
      rcases Nat.lt_or_ge o 10 with hlt | hge
      · have htext : decimal (o : ℤ) = [digitChar o] :=
          decimal_of_lt_ten (Int.natCast_nonneg o) (by omega)
        rw [htext, List.singleton_append, scanOctets, digitValue_digitChar hlt]
        simp only [Bool.false_eq_true, false_and, if_false, Nat.zero_mul, Nat.zero_add, true_and]
        rw [if_neg (by omega), if_neg (by omega)]
      · have htext : decimal (o : ℤ) = decimal (o / 10 : ℕ) ++ [digitChar (o % 10)] := by
          rw [decimal_of_ten_le (by omega)]
          rfl
        have hnew : o / 10 * 10 + o % 10 = o := by omega
        rw [htext, List.append_assoc, ih (o / 10) (by omega) _ (by omega), List.singleton_append,
          scanOctets, digitValue_digitChar (Nat.mod_lt o (by decide))]
        simp only [hnew, true_and, Bool.true_eq_false, false_and, if_false]
        rw [if_neg (by omega), if_neg (by omega)]

/-- An octet with its dot. -/
theorem scanOctets_dotted {tmp : List ℕ} (htmp : tmp.length < 3) (rest : List UInt8) {o : ℕ}
    (ho : o ≤ 255) :
    scanOctets tmp 0 false (decimal o ++ ['.'.toUInt8] ++ rest) =
      scanOctets (tmp ++ [o]) 0 false rest := by
  rw [List.append_assoc, scanOctets_decimal (by omega) _ ho, List.singleton_append, scanOctets,
    digitValue_dot]
  simp only [and_self, if_true]
  rw [if_neg (by omega)]

/-- Numbers with a dot behind each. -/
def dotted (os : List ℕ) : List UInt8 := os.flatMap fun o => decimal o ++ ['.'.toUInt8]

theorem dotted_append (os os' : List ℕ) : dotted (os ++ os') = dotted os ++ dotted os' := by
  simp [dotted]

/-- What the loop has read of the text. -/
def readSoFar (tmp : List ℕ) (octet : ℕ) (saw_digit : Bool) : List UInt8 :=
  dotted tmp ++ if saw_digit then decimal octet else []

/-- The four octets of a dotted quad, and its text. -/
structure Quad (os : List ℕ) (text : List UInt8) : Prop where
  length : os.length = 4
  octets : ∀ o ∈ os, o ≤ 255
  text : text ++ ['.'.toUInt8] = dotted os

/-- What the loop returns are the octets of the text. -/
theorem scanOctets_sound {tmp os : List ℕ} {octet : ℕ} {saw_digit : Bool} {src : List UInt8}
    (htmp : ∀ o ∈ tmp, o ≤ 255) (hlen : tmp.length ≤ 3) (hoctet : octet ≤ 255)
    (hfresh : saw_digit = false → octet = 0) (h : scanOctets tmp octet saw_digit src = some os) :
    Quad os (readSoFar tmp octet saw_digit ++ src) := by
  induction src generalizing tmp octet saw_digit with
  | nil =>
      rw [scanOctets] at h
      split_ifs at h with hcount
      obtain rfl := Option.some.inj h
      cases saw_digit with
      | false =>
          rw [Bool.toNat_false] at hcount
          omega
      | true =>
          rw [Bool.toNat_true] at hcount
          refine ⟨?_, ?_, ?_⟩
          · rw [List.length_append, List.length_singleton]
            omega
          · intro o ho
            rcases List.mem_append.1 ho with ho | ho
            · exact htmp o ho
            · rw [List.mem_singleton.1 ho]
              exact hoctet
          · rw [dotted_append, readSoFar, if_pos rfl, List.append_nil, List.append_assoc]
            simp [dotted]
  | cons ch src ih =>
      rw [scanOctets] at h
      cases hdigit : digitValue ch with
      | some d =>
          obtain ⟨hd, rfl⟩ := digitValue_eq_some.1 hdigit
          simp only [hdigit] at h
          split_ifs at h with hzero hbig hmany
          -- The digit goes behind those of the octet.
          have hread : readSoFar tmp (octet * 10 + d) true = readSoFar tmp octet saw_digit ++
              [digitChar d] := by
            cases saw_digit with
            | false =>
                obtain rfl := hfresh rfl
                rw [readSoFar, readSoFar, if_pos rfl, if_neg Bool.false_ne_true, List.append_nil,
                  decimal_of_lt_ten (by omega) (by omega)]
                simp
            | true =>
                have hne : octet ≠ 0 := fun h0 => hzero ⟨rfl, h0⟩
                have hdiv : ((octet * 10 + d : ℕ) : ℤ) / 10 = octet := by omega
                have hmod : (((octet * 10 + d : ℕ) : ℤ) % 10).toNat = d := by omega
                rw [readSoFar, readSoFar, if_pos rfl, if_pos rfl, decimal_of_ten_le (by omega), hdiv,
                  hmod, List.append_assoc]
          have hquad := ih htmp hlen (by omega) (fun h => absurd h (by simp)) h
          rw [hread, List.append_assoc, List.singleton_append] at hquad
          exact hquad
      | none =>
          simp only [hdigit] at h
          split_ifs at h with hdot hfour
          obtain ⟨rfl, rfl⟩ := hdot
          have hread : readSoFar (tmp ++ [octet]) 0 false =
              readSoFar tmp octet true ++ ['.'.toUInt8] := by
            rw [readSoFar, readSoFar, dotted_append]
            simp [dotted]
          have htmp' : ∀ o ∈ tmp ++ [octet], o ≤ 255 := by
            intro o ho
            rcases List.mem_append.1 ho with ho | ho
            · exact htmp o ho
            · rw [List.mem_singleton.1 ho]
              exact hoctet
          have hlen' : (tmp ++ [octet]).length ≤ 3 := by
            rw [List.length_append, List.length_singleton]
            omega
          have hquad := ih htmp' hlen' (Nat.zero_le _) (fun _ => rfl) h
          rw [hread, List.append_assoc, List.singleton_append] at hquad
          exact hquad

/-- The loop reads every dotted quad. -/
theorem scanOctets_quad {a b c d : ℕ} (ha : a ≤ 255) (hb : b ≤ 255) (hc : c ≤ 255) (hd : d ≤ 255) :
    scanOctets [] 0 false (decimal a ++ ascii "." ++ decimal b ++ ascii "." ++ decimal c ++
      ascii "." ++ decimal d) = some [a, b, c, d] := by
  have hdot : ascii "." = ['.'.toUInt8] := rfl
  have htext : decimal a ++ ascii "." ++ decimal b ++ ascii "." ++ decimal c ++ ascii "." ++
      decimal d = decimal a ++ ['.'.toUInt8] ++ (decimal b ++ ['.'.toUInt8] ++
        (decimal c ++ ['.'.toUInt8] ++ (decimal d ++ []))) := by
    simp [hdot]
  rw [htext, scanOctets_dotted (Nat.lt_of_sub_eq_succ rfl) _ ha,
    scanOctets_dotted (Nat.lt_of_sub_eq_succ rfl) _ hb,
    scanOctets_dotted (Nat.lt_of_sub_eq_succ rfl) _ hc,
    scanOctets_decimal (Nat.lt_of_sub_eq_succ rfl) _ hd, scanOctets]
  rfl

theorem octet_le (s_addr : UInt32) (i : ℕ) : octet s_addr i ≤ 255 :=
  Nat.le_of_lt_succ (Nat.mod_lt _ (by decide))

theorem ofOctets_octet (s_addr : UInt32) :
    ofOctets [octet s_addr 0, octet s_addr 1, octet s_addr 2, octet s_addr 3] = s_addr := by
  have hlt := s_addr.toNat_lt
  rw [← UInt32.toNat_inj, ofOctets, UInt32.toNat_ofNat']
  simp only [Nat.ofDigits_cons, Nat.ofDigits_nil, octet]
  omega

theorem octet_ofOctets {a b c d : ℕ} (ha : a ≤ 255) (hb : b ≤ 255) (hc : c ≤ 255) (hd : d ≤ 255) :
    octet (ofOctets [a, b, c, d]) 0 = a ∧ octet (ofOctets [a, b, c, d]) 1 = b ∧
      octet (ofOctets [a, b, c, d]) 2 = c ∧ octet (ofOctets [a, b, c, d]) 3 = d := by
  simp only [octet, ofOctets, UInt32.toNat_ofNat', Nat.ofDigits_cons, Nat.ofDigits_nil]
  omega

/-- `inet_pton` accepts what `inet_ntop` writes, and nothing else. -/
theorem inet_pton_eq_some {src : List UInt8} {s_addr : UInt32} :
    inet_pton src = some s_addr ↔ src = inet_ntop s_addr := by
  constructor
  · intro h
    obtain ⟨os, hscan, rfl⟩ := Option.map_eq_some_iff.1 h
    have hquad := scanOctets_sound (by simp) (by decide) (by decide) (fun _ => rfl) hscan
    match os, hquad with
    | [a, b, c, d], hquad =>
        have hbound := hquad.octets
        simp only [List.mem_cons, List.not_mem_nil, or_false, forall_eq_or_imp, forall_eq] at hbound
        obtain ⟨ha, hb, hc, hd⟩ := hbound
        obtain ⟨h0, h1, h2, h3⟩ := octet_ofOctets ha hb hc hd
        have htext := hquad.text
        have hread : readSoFar [] 0 false ++ src = src := rfl
        rw [hread] at htext
        rw [inet_ntop, h0, h1, h2, h3]
        refine (List.append_left_inj ['.'.toUInt8]).1 ?_
        rw [htext]
        simp [dotted, ascii]
  · rintro rfl
    rw [inet_pton, inet_ntop, scanOctets_quad (octet_le _ 0) (octet_le _ 1) (octet_le _ 2)
      (octet_le _ 3), Option.map_some, ofOctets_octet]

/-! ## Addresses and their texts -/

/-- The two bytes are exchanged, and exchanged back. -/
theorem networkToHost16_hostToNetwork16 (host16 : UInt16) :
    sockets.networkToHost16 (sockets.hostToNetwork16 host16) = host16 := by
  rw [← UInt16.toBitVec_inj]
  simp only [sockets.networkToHost16, sockets.hostToNetwork16, UInt16.toBitVec_or,
    UInt16.toBitVec_shiftLeft, UInt16.toBitVec_shiftRight]
  apply BitVec.eq_of_getLsbD_eq
  intro i hi
  have hout : host16.toBitVec.getLsbD (8 + (8 + i)) = false := BitVec.getLsbD_of_ge _ _ (by omega)
  rcases Nat.lt_or_ge i 8 with h | h
  · have hhigh : 8 + i < 16 := by omega
    simp [h, hhigh, hout, BitVec.getLsbD_eq_getElem hi]
  · have hlow : 8 + (i - 8) = i := by omega
    have hback : i - 8 < 8 := by omega
    have hhigh : ¬ 8 + i < 16 := by omega
    have hge : ¬ i < 8 := by omega
    simp [hi, hge, hback, hlow, hhigh, hout]

theorem hostToNetwork16_networkToHost16 (net16 : UInt16) :
    sockets.hostToNetwork16 (sockets.networkToHost16 net16) = net16 :=
  networkToHost16_hostToNetwork16 net16

/-- A port has at most five digits. -/
theorem length_decimal_port (port : UInt16) : (decimal port.toNat).length ≤ 5 :=
  Logger.length_decimal_of_lt (by decide)
    ⟨Int.natCast_nonneg _, by have := port.toNat_lt; omega⟩

theorem length_inet_ntop (s_addr : UInt32) : (inet_ntop s_addr).length ≤ 15 := by
  have hoctet (i : ℕ) : (decimal (octet s_addr i)).length ≤ 3 :=
    Logger.length_decimal_of_lt (by decide)
      ⟨Int.natCast_nonneg _, by have := octet_le s_addr i; omega⟩
  have h0 := hoctet 0
  have h1 := hoctet 1
  have h2 := hoctet 2
  have h3 := hoctet 3
  have hdot : (ascii ".").length = 1 := rfl
  simp only [inet_ntop, List.length_append, hdot]
  omega

/-- The text of an address is never cut off. -/
theorem toHostPort_eq (addr : SockAddrIn) : (sockets.toHostPort addr).val =
    inet_ntop addr.sin_addr ++ ascii ":" ++
      decimal (sockets.networkToHost16 addr.sin_port).toNat := by
  have hhost := length_inet_ntop addr.sin_addr
  have hport := length_decimal_port (sockets.networkToHost16 addr.sin_port)
  have hcolon : (ascii ":").length = 1 := rfl
  refine List.take_of_length_le ?_
  rw [List.length_append, List.length_append, hcolon]
  omega

namespace InetAddress

/-- **Addresses from text.** For every string and every port: if the string, up to its first NUL, is a
    dotted quad, the address is the one it says, and its text is the string, a colon and the port.
    Every other string makes the address that the port alone makes, any local address. -/
theorem ofIp_spec (ip : List UInt8) (port : UInt16) :
    (∀ s_addr, c_str ip = inet_ntop s_addr → (ofIp ip port).addr_.sin_addr = s_addr ∧
        (ofIp ip port).toHostPort.val = c_str ip ++ ascii ":" ++ decimal port.toNat) ∧
      ((∀ s_addr, c_str ip ≠ inet_ntop s_addr) → ofIp ip port = ofPort port ∧
        (ofIp ip port).toHostPort.val = ascii "0.0.0.0:" ++ decimal port.toNat) := by
  constructor
  · intro s_addr htext
    have hread : inet_pton (c_str ip) = some s_addr := inet_pton_eq_some.2 htext
    have haddr : (ofIp ip port).addr_ =
        { sin_family := AF_INET, sin_port := sockets.hostToNetwork16 port, sin_addr := s_addr } := by
      simp only [ofIp, sockets.fromHostPort, hread]
    rw [toHostPort, toHostPort_eq, haddr, networkToHost16_hostToNetwork16, htext]
    exact ⟨rfl, rfl⟩
  · intro hnone
    have hread : inet_pton (c_str ip) = none := by
      rw [Option.eq_none_iff_forall_ne_some]
      exact fun s_addr h => hnone s_addr (inet_pton_eq_some.1 h)
    have haddr : ofIp ip port = ofPort port := by
      simp only [ofIp, sockets.fromHostPort, hread]
      rfl
    refine ⟨haddr, ?_⟩
    rw [haddr, toHostPort, toHostPort_eq]
    simp only [ofPort, networkToHost16_hostToNetwork16]
    rfl

/-- An address and a name, which is none. -/
theorem ofIp_spec_localhost :
    (ofIp (ascii "127.0.0.1") 80).toHostPort.val = ascii "127.0.0.1:80" ∧
      ofIp (ascii "localhost") 80 = ofPort 80 := by
  have hquad : c_str (ascii "127.0.0.1") = inet_ntop 0x0100007f := by decide +kernel
  have hname : ∀ s_addr, c_str (ascii "localhost") ≠ inet_ntop s_addr := by
    intro s_addr h
    have hread : inet_pton (c_str (ascii "localhost")) = none := by decide +kernel
    rw [inet_pton_eq_some.2 h] at hread
    exact Option.some_ne_none s_addr hread
  refine ⟨?_, ((ofIp_spec (ascii "localhost") 80).2 hname).1⟩
  rw [((ofIp_spec (ascii "127.0.0.1") 80).1 _ hquad).2]
  decide +kernel

end InetAddress

/-- A dotted quad is digits and dots. -/
theorem not_mem_inet_ntop {c : UInt8} (hdigit : digitValue c = none) (hsign : c ≠ '-'.toUInt8)
    (hdot : c ≠ '.'.toUInt8) (s_addr : UInt32) : c ∉ inet_ntop s_addr := by
  have hascii : c ∉ ascii "." := by
    have htext : ascii "." = ['.'.toUInt8] := rfl
    rw [htext, List.mem_singleton]
    exact hdot
  simp only [inet_ntop, List.mem_append, not_mem_decimal hdigit hsign, hascii, or_self, not_false_iff]

theorem inet_ntop_injective : Function.Injective inet_ntop := by
  intro x y h
  have hx : inet_pton (inet_ntop x) = some x := inet_pton_eq_some.2 rfl
  rw [h, inet_pton_eq_some.2 rfl] at hx
  exact (Option.some.inj hx).symm

theorem decimal_injective : Function.Injective decimal := by
  intro v w h
  have hv := readDecimal_decimal v
  rw [h, readDecimal_decimal w] at hv
  exact (Option.some.inj hv).symm

theorem networkToHost16_injective : Function.Injective sockets.networkToHost16 :=
  Function.LeftInverse.injective hostToNetwork16_networkToHost16

namespace InetAddress

/-- The text of an address tells the address. -/
theorem toHostPort_inj {a b : InetAddress} (ha : a.addr_.sin_family = AF_INET)
    (hb : b.addr_.sin_family = AF_INET) (h : a.toHostPort.val = b.toHostPort.val) : a = b := by
  have hcolon : ascii ":" = [':'.toUInt8] := rfl
  rw [toHostPort, toHostPort, toHostPort_eq, toHostPort_eq, hcolon, List.append_assoc,
    List.append_assoc, List.singleton_append, List.singleton_append,
    List.append_cons_inj_of_notMem (not_mem_inet_ntop (by decide) (by decide) (by decide) _)
      (not_mem_decimal (by decide) (by decide) _)] at h
  obtain ⟨haddr, -, hport⟩ := h
  have hsin_addr := inet_ntop_injective haddr
  have hsin_port := networkToHost16_injective
    (UInt16.toNat_inj.1 (Int.natCast_inj.1 (decimal_injective hport)))
  obtain ⟨⟨family, port, addr⟩⟩ := a
  obtain ⟨⟨family', port', addr'⟩⟩ := b
  simp_all

end InetAddress

end WwjMuduo
