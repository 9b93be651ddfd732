import Embassy.Security

/-!
# The SSRF guard

What `resolve_public_ip` should make of the answer of `getaddrinfo` (`Guarded`): the first address that is
public, where an IPv4-mapped address is only public if the address in it is. The test against
100.64.0.0/10 is false for every IPv6 address, so a mapped one of that network is taken for public
(`not_guarded`). Where none comes before the first public one, the guard holds (`guarded_iff`).
-/

namespace Embassy

namespace Security

/-- A host that `getaddrinfo` returned, and the address it is a literal of. -/
structure SockAddr where
  host : String
  addr : IpAddress
  parses : ipAddress host = some addr

/-- The IPv4 address in an IPv4-mapped one. -/
def embedded : IpAddress → Option IpAddress
  | .v4 _ => none
  | .v6 a _ => (ipv4Mapped a).map .v4

def InExtra (addr : IpAddress) : Prop := ∃ net ∈ extraBlockedNetworks, net.contains addr = true

section
variable (props : IpProperties)

/-- Private, loopback, link-local, multicast, reserved, unspecified, or in an extra blocked network. -/
def Internal (addr : IpAddress) : Prop := (props.flags addr).any = true ∨ InExtra addr

/-- Neither the address nor one in it is internal. -/
def Public (addr : IpAddress) : Prop := ¬ Internal props addr ∧ ∀ m ∈ embedded addr, ¬ Internal props m

/-- What is promised of `resolve_public_ip`. -/
def Guarded (hostname : String) (infos : List SockAddr) : Prop :=
  match resolvePublicIp props hostname (infos.map SockAddr.host) with
  | .ok ip => ∃ before s after, infos = before ++ s :: after ∧ s.host = ip ∧ Public props s.addr ∧
      ∀ q ∈ before, ¬ Public props q.addr
  | .error _ => ∀ s ∈ infos, ¬ Public props s.addr

/-- An IPv4-mapped address of an extra blocked network, with none of the six properties. -/
def MappedExtra (addr : IpAddress) : Prop :=
  (props.flags addr).any = false ∧ ∃ m ∈ embedded addr, InExtra m

/-- Before every mapped address of an extra blocked network there is a public one. -/
def NoMappedFirst (infos : List SockAddr) : Prop :=
  ∀ before s after, infos = before ++ s :: after → MappedExtra props s.addr →
    ∃ q ∈ before, Public props q.addr

end

section
variable {props : IpProperties} {addr m : IpAddress} {hostname : String} {s : SockAddr} {infos : List SockAddr}

theorem isBlocked_iff : isBlocked props addr = true ↔ Internal props addr := by
  rw [isBlocked, Bool.or_eq_true, List.any_eq_true]
  rfl

theorem flags_embedded (hm : m ∈ embedded addr) : props.flags m = props.flags addr := by
  cases addr with
  | v4 a => cases hm
  | v6 a scope =>
    obtain ⟨b, hb, rfl⟩ := Option.map_eq_some_iff.1 hm
    exact (props.mapped a scope b hb).symm

theorem not_inExtra_of_embedded (hm : m ∈ embedded addr) : ¬ InExtra addr := by
  cases addr with
  | v4 a => cases hm
  | v6 a scope => rintro ⟨net, -, hnet⟩; cases hnet

/-- What the test lets through is public, or a mapped address of an extra blocked network. -/
theorem public_iff : Public props addr ↔ ¬ Internal props addr ∧ ¬ MappedExtra props addr := by
  refine and_congr_right fun hint => ?_
  rw [Internal, not_or, Bool.not_eq_true] at hint
  constructor
  · rintro hemb ⟨-, m, hm, hextra⟩
    exact hemb m hm (.inr hextra)
  · intro hmapped m hm hint'
    rcases hint' with hflags | hextra
    · rw [flags_embedded hm, hint.1] at hflags
      cases hflags
    · exact hmapped ⟨hint.1, m, hm, hextra⟩

theorem not_internal_of_mappedExtra (h : MappedExtra props addr) : ¬ Internal props addr := by
  obtain ⟨hflags, m, hm, -⟩ := h
  rintro (hany | hextra)
  · rw [hflags] at hany; cases hany
  · exact not_inExtra_of_embedded hm hextra

theorem resolvePublicIp_cons : resolvePublicIp props hostname ((s :: infos).map SockAddr.host) =
    if isBlocked props s.addr then resolvePublicIp props hostname (infos.map SockAddr.host)
    else .ok s.host := by
  rw [List.map_cons, resolvePublicIp, s.parses]

theorem guarded_cons_of_internal (hs : Internal props s.addr) :
    Guarded props hostname (s :: infos) ↔ Guarded props hostname infos := by
  have hpublic : ¬ Public props s.addr := fun h => h.1 hs
  rw [Guarded, resolvePublicIp_cons, if_pos (isBlocked_iff.2 hs), Guarded]
  split
  · constructor
    · rintro ⟨before, q, after, heq, hhost, hq, hbefore⟩
      cases before with
      | nil => obtain ⟨rfl, -⟩ := List.cons.inj heq; exact absurd hq hpublic
      | cons u before =>
        obtain ⟨rfl, rfl⟩ := List.cons.inj heq
        exact ⟨before, q, after, rfl, hhost, hq, fun v hv => hbefore v (by simp [hv])⟩
    · rintro ⟨before, q, after, rfl, hhost, hq, hbefore⟩
      exact ⟨s :: before, q, after, rfl, hhost, hq, by simpa using ⟨hpublic, hbefore⟩⟩
  · simp [hpublic]

theorem noMappedFirst_cons_of_internal (hs : Internal props s.addr) :
    NoMappedFirst props (s :: infos) ↔ NoMappedFirst props infos := by
  have hpublic : ¬ Public props s.addr := fun h => h.1 hs
  constructor
  · rintro h before q after rfl hq
    obtain ⟨u, hu, hpub⟩ := h (s :: before) q after rfl hq
    rcases List.mem_cons.1 hu with rfl | hu
    · exact absurd hpub hpublic
    · exact ⟨u, hu, hpub⟩
  · intro h before q after heq hq
    cases before with
    | nil => obtain ⟨rfl, -⟩ := List.cons.inj heq; exact absurd hs (not_internal_of_mappedExtra hq)
    | cons u before =>
      obtain ⟨rfl, rfl⟩ := List.cons.inj heq
      obtain ⟨v, hv, hpub⟩ := h before q after rfl hq
      exact ⟨v, by simp [hv], hpub⟩

theorem guarded_cons_of_not_internal (hs : ¬ Internal props s.addr) :
    Guarded props hostname (s :: infos) ↔ Public props s.addr := by
  rw [Guarded, resolvePublicIp_cons, if_neg (mt isBlocked_iff.1 hs)]
  constructor
  · rintro ⟨before, q, after, -, hhost, hq, -⟩
    have haddr : q.addr = s.addr := Option.some.inj (by rw [← q.parses, hhost, s.parses])
    rwa [haddr] at hq
  · intro hq
    exact ⟨[], s, infos, rfl, rfl, hq, by simp⟩

theorem noMappedFirst_cons_of_not_internal (hs : ¬ Internal props s.addr) :
    NoMappedFirst props (s :: infos) ↔ Public props s.addr := by
  rw [public_iff, and_iff_right hs]
  constructor
  · intro h hmapped
    obtain ⟨q, hq, -⟩ := h [] s infos rfl hmapped
    cases hq
  · intro hmapped before q after heq hq
    cases before with
    | nil => obtain ⟨rfl, -⟩ := List.cons.inj heq; exact absurd hq hmapped
    | cons u before =>
      obtain ⟨rfl, rfl⟩ := List.cons.inj heq
      exact ⟨s, by simp, public_iff.2 ⟨hs, hmapped⟩⟩

end

/-- For every answer of `getaddrinfo`: the first public address is returned, or none is there and
`ValueError` raised, if and only if no mapped address of an extra blocked network comes before the first
public one. -/
theorem guarded_iff (props : IpProperties) (hostname : String) (infos : List SockAddr) :
    Guarded props hostname infos ↔ NoMappedFirst props infos := by
  induction infos with
  | nil =>
    refine iff_of_true (by simp [Guarded, resolvePublicIp]) fun before s after heq => ?_
    simp at heq
  | cons s infos ih =>
    by_cases hs : Internal props s.addr
    · rw [guarded_cons_of_internal hs, noMappedFirst_cons_of_internal hs, ih]
    · rw [guarded_cons_of_not_internal hs, noMappedFirst_cons_of_not_internal hs]

/-! ### CPython's properties -/

/-- In a network of either kind, given by an address and the length of its prefix. -/
def inNet {n : ℕ} (a : BitVec n) (net : BitVec n × ℕ) : Bool := a >>> (n - net.2) = net.1 >>> (n - net.2)

def privateNetworks4 : List (BitVec 32 × ℕ) :=
  [(0x00000000, 8), (0x0A000000, 8), (0x7F000000, 8), (0xA9FE0000, 16), (0xAC100000, 12), (0xC0000000, 24),
    (0xC00000AA, 31), (0xC0000200, 24), (0xC0A80000, 16), (0xC6120000, 15), (0xC6336400, 24),
    (0xCB007100, 24), (0xF0000000, 4), (0xFFFFFFFF, 32)]

/-- The properties of an IPv4 address. -/
def flags4 (a : BitVec 32) : Flags where
  isPrivate := privateNetworks4.any (inNet a) && a ≠ 0xC0000009 && a ≠ 0xC000000A
  isLoopback := inNet a (0x7F000000, 8)
  isLinkLocal := inNet a (0xA9FE0000, 16)
  isMulticast := inNet a (0xE0000000, 4)
  isReserved := inNet a (0xF0000000, 4)
  isUnspecified := a = 0

/-- An IPv6 address from its first four hextets. -/
def hextets4 (a b c d : ℕ) : BitVec 128 := BitVec.ofNat 128 ((((a * 65536 + b) * 65536 + c) * 65536 + d) * 2 ^ 64)

/-- The private networks of IPv6, and those excepted. -/
def privateNetworks6 : List (BitVec 128 × ℕ) × List (BitVec 128 × ℕ) :=
  ([(1, 128), (0, 128), (0xFFFF00000000, 96), (hextets4 0x64 0xFF9B 1 0, 48), (hextets4 0x100 0 0 0, 64),
      (hextets4 0x2001 0 0 0, 23), (hextets4 0x2001 0xDB8 0 0, 32), (hextets4 0x2002 0 0 0, 16),
      (hextets4 0xFC00 0 0 0, 7), (hextets4 0xFE80 0 0 0, 10)],
    [(hextets4 0x2001 1 0 0 + 1, 128), (hextets4 0x2001 1 0 0 + 2, 128), (hextets4 0x2001 3 0 0, 32),
      (hextets4 0x2001 4 0x112 0, 48), (hextets4 0x2001 0x20 0 0, 28), (hextets4 0x2001 0x30 0 0, 28)])

def reservedNetworks6 : List (BitVec 128 × ℕ) :=
  [(0, 8), (hextets4 0x100 0 0 0, 8), (hextets4 0x200 0 0 0, 7), (hextets4 0x400 0 0 0, 6),
    (hextets4 0x800 0 0 0, 5), (hextets4 0x1000 0 0 0, 4), (hextets4 0x4000 0 0 0, 3),
    (hextets4 0x6000 0 0 0, 3), (hextets4 0x8000 0 0 0, 3), (hextets4 0xA000 0 0 0, 3),
    (hextets4 0xC000 0 0 0, 3), (hextets4 0xE000 0 0 0, 4), (hextets4 0xF000 0 0 0, 5),
    (hextets4 0xF800 0 0 0, 6), (hextets4 0xFE00 0 0 0, 9)]

/-- The properties of an IPv6 address that is not mapped. -/
def flags6 (a : BitVec 128) : Flags where
  isPrivate := privateNetworks6.1.any (inNet a) && !privateNetworks6.2.any (inNet a)
  isLoopback := a = 1
  isLinkLocal := inNet a (hextets4 0xFE80 0 0 0, 10)
  isMulticast := inNet a (hextets4 0xFF00 0 0 0, 8)
  isReserved := reservedNetworks6.any (inNet a)
  isUnspecified := a = 0

def cpythonFlags : IpAddress → Flags
  | .v4 a => flags4 a
  | .v6 a _ => ((ipv4Mapped a).map flags4).getD (flags6 a)

theorem cpythonFlags_mapped (a : BitVec 128) (scope : Option (List Char)) (m : BitVec 32)
    (hm : ipv4Mapped a = some m) : cpythonFlags (.v6 a scope) = cpythonFlags (.v4 m) := by
  simp [cpythonFlags, hm]

def IpProperties.cpython : IpProperties := ⟨cpythonFlags, cpythonFlags_mapped⟩

example : resolvePublicIp .cpython "example.com" ["10.0.0.5", "100.64.0.5", "::ffff:127.0.0.1", "93.184.216.34"] =
    .ok "93.184.216.34" := by decide

/-- The mapped address of 100.64.0.5 is returned. -/
theorem not_guarded : ¬ ∀ props hostname infos, Guarded props hostname infos := by
  intro h
  have hparse : ipAddress "::ffff:100.64.0.5" = some (.v6 0xFFFF64400005#128 none) := by decide
  have hguarded := h .cpython "cgnat-attacker.example" [⟨_, _, hparse⟩]
  have hflags : (cpythonFlags (.v6 0xFFFF64400005#128 none)).any = false := by decide
  have hextra : MappedExtra .cpython (.v6 0xFFFF64400005#128 none) :=
    ⟨hflags, .v4 0x64400005#32, by decide, _, List.mem_singleton.2 rfl, by decide⟩
  rw [guarded_cons_of_not_internal (not_internal_of_mappedExtra hextra)] at hguarded
  exact (public_iff.1 hguarded).2 hextra

end Security

end Embassy
