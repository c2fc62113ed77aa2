/-
**The name of a client.**

`fetch_sock_addr_info` prints the address and the port of the other end of a connection into an
array of its caller.  It is not told how long the array is, nor does it look at what `getpeername`
returns: when that fails, it prints what lay in the structure before.

Main definitions:

* `SockaddrIn`, `ntohs`, `inetNtop` — the address of a peer, and its text;
* `fetchSockAddrInfo` — the function.

Main results:

* `fetchSockAddrInfo_fits_iff` — **how long the array has to be**;
* `fetchSockAddrInfo_tells` — **the name tells the peers apart**, where they are found.
-/

import SdsStorage.Fields
import SdsStorage.LogFormat

set_option relaxedAutoImplicit false
set_option autoImplicit false

/-! ### The function -/

/-- `struct sockaddr_in`, as far as it is read: the bytes in the order of the network. -/
structure SockaddrIn where
  port : UInt8 × UInt8
  addr : UInt8 × UInt8 × UInt8 × UInt8
  deriving DecidableEq, Repr

/-- `ntohs`. -/
def ntohs (port : UInt8 × UInt8) : ℕ := 256 * port.1.toNat + port.2.toNat

/-- `inet_ntop` for `AF_INET`: four numbers with points between them. -/
def inetNtop (addr : UInt8 × UInt8 × UInt8 × UInt8) : Bytes :=
  Fields.render (CString.decimalNat addr.1.toNat)
    [(46, CString.decimalNat addr.2.1.toNat), (46, CString.decimalNat addr.2.2.1.toNat),
      (46, CString.decimalNat addr.2.2.2.toNat)]

/-- `fetch_sock_addr_info` of a connection over IPv4; `peer` is what `getpeername` finds, if it
succeeds, and `stale` what lies in the structure before. -/
def fetchSockAddrInfo (peer : Option SockaddrIn) (stale : SockaddrIn) (str : Bytes) :
    Outcome Bytes := do
  -- the status of `getpeername` is ignored
  let s := peer.getD stale
  let ipAddr ← CString.memcpyAt (List.replicate 64 0) 0 (CString.cstr (inetNtop s.addr))
  let host ← CString.percentS (.mem ipAddr)
  CString.memcpyAt str 0 (CString.cstr (host ++ 58 :: CString.decimalNat (ntohs s.port)))

/-! ### The text -/

/-- The fields behind the first number of a name. -/
def peerFields (s : SockaddrIn) : List (UInt8 × Bytes) :=
  [(46, CString.decimalNat s.addr.2.1.toNat), (46, CString.decimalNat s.addr.2.2.1.toNat),
    (46, CString.decimalNat s.addr.2.2.2.toNat), (58, CString.decimalNat (ntohs s.port))]

/-- The name that is printed. -/
def peerText (s : SockaddrIn) : Bytes :=
  Fields.render (CString.decimalNat s.addr.1.toNat) (peerFields s)

theorem peerText_eq (s : SockaddrIn) :
    peerText s = inetNtop s.addr ++ 58 :: CString.decimalNat (ntohs s.port) := rfl

theorem ntohs_lt (port : UInt8 × UInt8) : ntohs port < 2 ^ 16 := by
  have hhigh := port.1.toNat_lt
  have hlow := port.2.toNat_lt
  rw [ntohs]
  omega

theorem ntohs_inj {p q : UInt8 × UInt8} (h : ntohs p = ntohs q) : p = q := by
  have hp := p.2.toNat_lt
  have hq := q.2.toNat_lt
  rw [ntohs, ntohs] at h
  exact Prod.ext (UInt8.toNat_inj.1 (by omega)) (UInt8.toNat_inj.1 (by omega))

/-- A number has as many digits as its bound allows. -/
theorem length_decimalNat_le_of_lt {n k : ℕ} (hk : 0 < k) (h : n < 10 ^ k) :
    (CString.decimalNat n).length ≤ k := by
  rw [CString.decimalNat, List.length_map]
  exact (Nat.length_toDigits_le_iff (by decide) hk).2 h

theorem length_decimalNat_byte (b : UInt8) : (CString.decimalNat b.toNat).length ≤ 3 := by
  have hb := b.toNat_lt
  exact length_decimalNat_le_of_lt (by decide) (by omega)

theorem length_inetNtop_le (addr : UInt8 × UInt8 × UInt8 × UInt8) :
    (inetNtop addr).length ≤ 15 := by
  have ha := length_decimalNat_byte addr.1
  have hb := length_decimalNat_byte addr.2.1
  have hc := length_decimalNat_byte addr.2.2.1
  have hd := length_decimalNat_byte addr.2.2.2
  simp only [inetNtop, Fields.render_cons, Fields.render_nil, List.length_append, List.length_cons]
  omega

theorem length_peerText_le (s : SockaddrIn) : (peerText s).length ≤ 21 := by
  have haddr := length_inetNtop_le s.addr
  have hlt := ntohs_lt s.port
  have hport := length_decimalNat_le_of_lt (n := ntohs s.port) (k := 5) (by decide) (by omega)
  rw [peerText_eq, List.length_append, List.length_cons]
  omega

/-- Neither separator is a digit. -/
theorem separator_not_mem {b : UInt8} (hb : b = 46 ∨ b = 58) (n : ℕ) :
    b ∉ CString.decimalNat n := by
  intro h
  have hdigit := CString.decimalNat_digit h
  rcases hb with rfl | rfl
  · exact absurd hdigit.1 (by decide)
  · exact absurd hdigit.2 (by decide)

theorem peerFields_free (s : SockaddrIn) : Fields.Free (peerFields s) := by
  intro field hfield
  simp only [peerFields, List.mem_cons, List.not_mem_nil, or_false] at hfield
  rcases hfield with rfl | rfl | rfl | rfl
  · exact separator_not_mem (Or.inl rfl) _
  · exact separator_not_mem (Or.inl rfl) _
  · exact separator_not_mem (Or.inl rfl) _
  · exact separator_not_mem (Or.inr rfl) _

/-- **A name is the name of one peer.** -/
theorem peerText_inj {p q : SockaddrIn} (h : peerText p = peerText q) : p = q := by
  obtain ⟨hfirst, hfields⟩ := Fields.render_inj (peerFields_free p) (peerFields_free q) rfl h
  simp only [peerFields, List.cons.injEq, Prod.mk.injEq, true_and, and_true] at hfields
  obtain ⟨hb, hc, hd, hport⟩ := hfields
  have hbyte : ∀ {x y : UInt8}, CString.decimalNat x.toNat = CString.decimalNat y.toNat → x = y :=
    fun hxy => UInt8.toNat_inj.1 (CString.decimalNat_inj hxy)
  obtain ⟨port, a, b, c, d⟩ := p
  obtain ⟨port', a', b', c', d'⟩ := q
  obtain rfl := ntohs_inj (CString.decimalNat_inj hport)
  obtain rfl := hbyte hfirst
  obtain rfl := hbyte hb
  obtain rfl := hbyte hc
  obtain rfl := hbyte hd
  rfl

theorem noNul_inetNtop (addr : UInt8 × UInt8 × UInt8 × UInt8) :
    CString.NoNul (inetNtop addr) := by
  have hdigits : ∀ n, (0 : UInt8) ∉ CString.decimalNat n := CString.decimalNat_noNul
  simp only [CString.NoNul, inetNtop, Fields.render_cons, Fields.render_nil, List.mem_append,
    List.mem_cons, not_or]
  simp [hdigits]

theorem noNul_peerText (s : SockaddrIn) : CString.NoNul (peerText s) := by
  have haddr := noNul_inetNtop s.addr
  have hport := CString.decimalNat_noNul (ntohs s.port)
  rw [CString.NoNul] at haddr hport ⊢
  rw [peerText_eq, List.mem_append, List.mem_cons]
  rintro (h | h | h)
  · exact haddr h
  · exact absurd h (by decide)
  · exact hport h

/-! ### The array -/

/-- What the function comes to: the name is copied into the array. -/
theorem fetchSockAddrInfo_eq (peer : Option SockaddrIn) (stale : SockaddrIn) (str : Bytes) :
    fetchSockAddrInfo peer stale str =
      CString.memcpyAt str 0 (CString.cstr (peerText (peer.getD stale))) := by
  generalize hs : peer.getD stale = s
  have hlen := length_inetNtop_le s.addr
  have hroom : 0 + (CString.cstr (inetNtop s.addr)).length ≤
      (List.replicate 64 (0 : UInt8)).length := by
    rw [CString.cstr, List.length_append, List.length_singleton, List.length_replicate]
    omega
  have hhost : CString.percentS (.mem ((List.replicate 64 (0 : UInt8)).take 0 ++
      CString.cstr (inetNtop s.addr) ++
      (List.replicate 64 0).drop (0 + (CString.cstr (inetNtop s.addr)).length))) =
      .ok (inetNtop s.addr) := by
    rw [List.take_zero, List.nil_append, CString.cstr, List.append_assoc]
    exact CString.percentS_append (noNul_inetNtop s.addr) _
  simp only [fetchSockAddrInfo, hs]
  rw [CString.memcpyAt, if_pos hroom, Outcome.ok_bind, hhost, Outcome.ok_bind, peerText_eq]

/-- Any name fits into twenty-two bytes. -/
theorem fetchSockAddrInfo_isOk (peer : Option SockaddrIn) (stale : SockaddrIn) {str : Bytes}
    (hroom : 22 ≤ str.length) : ∃ out, fetchSockAddrInfo peer stale str = .ok out := by
  have hlen := length_peerText_le (peer.getD stale)
  rw [fetchSockAddrInfo_eq, CString.memcpyAt, if_pos]
  · exact ⟨_, rfl⟩
  · rw [CString.cstr, List.length_append, List.length_singleton]
    omega

/-- The longest name. -/
def longestPeer : SockaddrIn := { port := (255, 255), addr := (255, 255, 255, 255) }

/-- **How long the array has to be**: for the name of any peer, twenty-two bytes. -/
theorem fetchSockAddrInfo_fits_iff (str : Bytes) :
    (∀ peer stale, ∃ out, fetchSockAddrInfo peer stale str = .ok out) ↔ 22 ≤ str.length := by
  constructor
  · intro hall
    obtain ⟨out, h⟩ := hall (some longestPeer) longestPeer
    rw [fetchSockAddrInfo_eq, CString.memcpyAt] at h
    split at h
    · rename_i hroom
      have hlongest : (CString.cstr (peerText longestPeer)).length = 22 := by decide
      rw [Option.getD_some] at hroom
      omega
    · cases h
  · intro hroom peer stale
    exact fetchSockAddrInfo_isOk peer stale hroom

/-- **The name tells the peers apart**: where `getpeername` succeeds, what two calls leave in their
arrays is the same string exactly when the address and the port are the same. -/
theorem fetchSockAddrInfo_tells {p q stale stale' : SockaddrIn} {str str' out out' : Bytes}
    (hp : fetchSockAddrInfo (some p) stale str = .ok out)
    (hq : fetchSockAddrInfo (some q) stale' str' = .ok out') :
    Log.untilNul out = Log.untilNul out' ↔ p = q := by
  have hname : ∀ {s stale : SockaddrIn} {str out : Bytes},
      fetchSockAddrInfo (some s) stale str = .ok out → Log.untilNul out = peerText s := by
    intro s stale str out h
    rw [fetchSockAddrInfo_eq, Option.getD_some, CString.memcpyAt] at h
    split at h
    · cases h
      rw [List.take_zero, List.nil_append, CString.cstr, List.append_assoc]
      exact Log.untilNul_append (noNul_peerText s) _
    · cases h
  rw [hname hp, hname hq]
  refine ⟨peerText_inj, ?_⟩
  rintro rfl
  rfl

/-- The result applied to two clients of one address, and to the arrays of `accept_cb`. -/
theorem fetchSockAddrInfo_tells_ports : ∃ out out',
    fetchSockAddrInfo (some { port := (195, 80), addr := (127, 0, 0, 1) }) longestPeer
      (List.replicate 64 0) = .ok out ∧
    fetchSockAddrInfo (some { port := (195, 81), addr := (127, 0, 0, 1) }) longestPeer
      (List.replicate 64 0) = .ok out' ∧
    (Log.untilNul out = Log.untilNul out' ↔
      ({ port := (195, 80), addr := (127, 0, 0, 1) } : SockaddrIn) =
        { port := (195, 81), addr := (127, 0, 0, 1) }) := by
  have hroom : 22 ≤ (List.replicate 64 (0 : UInt8)).length := by decide
  obtain ⟨out, hp⟩ := fetchSockAddrInfo_isOk
    (some { port := (195, 80), addr := (127, 0, 0, 1) }) longestPeer hroom
  obtain ⟨out', hq⟩ := fetchSockAddrInfo_isOk
    (some { port := (195, 81), addr := (127, 0, 0, 1) }) longestPeer hroom
  exact ⟨out, out', hp, hq, fetchSockAddrInfo_tells hp hq⟩
