import Bgpd.Zapi

/-!
# Route messages there and back
-/

namespace Bgpd.Zapi

open Octets FlagWord Prefixes ZebraRib RibQueue RibRoutes
open UpdateReceive (getPrefix bitsOfOctets)

/-! ## The prefix -/

/-- The bits of eight bits as an octet. -/
theorem bits_octetOfBits (b₀ b₁ b₂ b₃ b₄ b₅ b₆ b₇ : Bool) :
    bitsOfOctets [octetOfBits [b₀, b₁, b₂, b₃, b₄, b₅, b₆, b₇]] = [b₀, b₁, b₂, b₃, b₄, b₅,
      b₆, b₇] := by
  revert b₀ b₁ b₂ b₃ b₄ b₅ b₆ b₇
  decide

/-- Missing bits are zero. -/
theorem octetOfBits_pad (bits : List Bool) :
    octetOfBits bits = octetOfBits ((List.range 8).map fun i => bits.getD i false) := by
  simp [octetOfBits, List.range, List.range.loop]

theorem bitsOfOctets_cons (octet : U8) (rest : List U8) :
    bitsOfOctets (octet :: rest) = bitsOfOctets [octet] ++ bitsOfOctets rest := by
  simp [bitsOfOctets]

/-- The bits of an octet are the bits it was made of, padded. -/
theorem bitsOfOctets_single (bits : List Bool) :
    bitsOfOctets [octetOfBits bits] = (List.range 8).map fun i => bits.getD i false := by
  rw [octetOfBits_pad]
  exact bits_octetOfBits _ _ _ _ _ _ _ _

/-- The bits of octets are the bits they were made of, padded. -/
theorem bitsOfOctets_octetsOfBits (n : Nat) (bits : List Bool) :
    bitsOfOctets (octetsOfBits n bits) = (List.range (8 * n)).map fun i => bits.getD i false := by
  induction n generalizing bits with
  | zero => rfl
  | succ n ih =>
    have first : bitsOfOctets [octetOfBits (bits.take 8)] =
        (List.range 8).map fun i => bits.getD i false := by
      rw [bitsOfOctets_single]
      refine List.map_congr_left fun i inside => ?_
      rw [List.mem_range] at inside
      simp [List.getD_eq_getElem?_getD, inside]
    have split : List.range (8 * (n + 1)) = List.range 8 ++ (List.range (8 * n)).map (8 + ·) := by
      rw [Nat.mul_add, Nat.mul_one, Nat.add_comm, List.range_add]
    rw [octetsOfBits, bitsOfOctets_cons, first, ih, split, List.map_append, List.map_map]
    congr 1
    refine List.map_congr_left fun i _ => ?_
    simp [List.getD_eq_getElem?_getD]

/-- The bits come back from the octets. -/
theorem take_bits {n : Nat} {bits : List Bool} (enough : bits.length ≤ 8 * n) :
    (bitsOfOctets (octetsOfBits n bits)).take bits.length = bits := by
  rw [bitsOfOctets_octetsOfBits]
  refine List.ext_getElem (by simpa using enough) fun i _ inside => ?_
  simp [List.getD_eq_getElem?_getD, inside]

/-- A prefix comes back from its octets. -/
theorem getPrefix_octets (p : Prefix) : getPrefix p.family p.prefixlen p.octets = some p := by
  have bits : (bitsOfOctets p.octets).take p.prefixlen = p.bits :=
    take_bits (by unfold psize Prefix.prefixlen; omega)
  unfold getPrefix
  simp only [bits, dif_pos p.fits]

/-! ## Reading what was written -/

@[simp] theorem streamGetc_cons (octet : U8) (rest : List U8) :
    streamGetc (octet :: rest) = some (octet, rest) := rfl

@[simp] theorem streamGetl_putl (word : U32) (rest : List U8) :
    streamGetl (putl word ++ rest) = some (word, rest) := by
  unfold streamGetl
  rw [if_neg (by simp), getl_putl]
  rfl

theorem streamGet_append (octets rest : List U8) :
    streamGet octets.length (octets ++ rest) = some (octets, rest) := by
  unfold streamGet
  rw [if_neg (by simp), List.take_left, List.drop_left]

variable {p : Prefix}

/-- The start of a message is read back. -/
theorem readRouteHead_written (ipv4 : p.family = .ip) (api : ZapiIpv4) (rest : List U8) :
    readRouteHead ([routeTypeCode api.type, api.flags, api.message, BitVec.ofNat 8 p.prefixlen]
        ++ p.octets ++ rest) = some ((api.type, api.flags, api.message, p), rest) := by
  have bound : p.prefixlen ≤ 32 := by
    have fits := p.fits
    rw [ipv4] at fits
    exact fits
  have length : (BitVec.ofNat 8 p.prefixlen).toNat = p.prefixlen := by
    rw [BitVec.toNat_ofNat]
    exact Nat.mod_eq_of_lt (by omega)
  have octets := streamGet_append p.octets rest
  have back := getPrefix_octets p
  rw [octets_length] at octets
  rw [ipv4] at back
  unfold readRouteHead
  simp [routeTypeOf_code, length, octets, back]

/-- The tail of a message is read back. -/
theorem readTail_written (message distance : U8) (metric : U32) (rest : List U8) :
    readTail message
        ((if check message zapiMessageDistance then [distance] else [])
          ++ (if check message zapiMessageMetric then putl metric else []) ++ rest) =
      some ((if check message zapiMessageDistance then distance else 0,
        if check message zapiMessageMetric then metric else 0), rest) := by
  unfold readTail
  by_cases first : check message zapiMessageDistance = true
  · by_cases second : check message zapiMessageMetric = true
    · simp [first, second]
    · simp [first, second]
  · by_cases second : check message zapiMessageMetric = true
    · simp [first, second]
    · simp [first, second]

/-! ### Next hops -/

/-- The IPv4 next hops of a message, in order. -/
def gatewayHops (nexthop : List U32) : List Nexthop :=
  nexthop.map fun gate => { type := .ipv4, gate := { ipv4 := gate } }

/-- The interfaces of a message, in order. -/
def interfaceHops (ifindex : List U32) : List Nexthop :=
  ifindex.map fun ifindex => { type := .ifindex, ifindex }

/-- A route with more next hops. -/
def addHops (rib : Rib) (hops : List Nexthop) : Rib := hops.foldl nexthopAdd rib

theorem addHops_append (rib : Rib) (first second : List Nexthop) :
    addHops rib (first ++ second) = addHops (addHops rib first) second :=
  List.foldl_append

theorem readNexthops_gateways (nexthop : List U32) (n : Nat) (rib : Rib) (rest : List U8) :
    readNexthops (nexthop.length + n) rib
        (nexthop.flatMap (fun gate => zebraNexthopIpv4 :: putl gate) ++ rest) =
      readNexthops n (addHops rib (gatewayHops nexthop)) rest := by
  induction nexthop generalizing rib with
  | nil => simp [addHops, gatewayHops]
  | cons gate nexthop ih =>
    have other : zebraNexthopIpv4 ≠ zebraNexthopIfindex ∧
        zebraNexthopIpv4 ≠ zebraNexthopIfname := by
      decide
    rw [List.length_cons, Nat.add_right_comm, List.flatMap_cons, List.append_assoc]
    conv => lhs; unfold readNexthops
    simp only [List.cons_append, streamGetc_cons, Option.bind_eq_bind, Option.bind_some, other.1,
      other.2, if_false, if_true, streamGetl_putl]
    rw [ih]
    rfl

theorem readNexthops_interfaces (ifindex : List U32) (n : Nat) (rib : Rib) (rest : List U8) :
    readNexthops (ifindex.length + n) rib
        (ifindex.flatMap (fun ifindex => zebraNexthopIfindex :: putl ifindex) ++ rest) =
      readNexthops n (addHops rib (interfaceHops ifindex)) rest := by
  induction ifindex generalizing rib with
  | nil => simp [addHops, interfaceHops]
  | cons index ifindex ih =>
    rw [List.length_cons, Nat.add_right_comm, List.flatMap_cons, List.append_assoc]
    conv => lhs; unfold readNexthops
    simp only [List.cons_append, streamGetc_cons, Option.bind_eq_bind, Option.bind_some, if_true,
      streamGetl_putl]
    rw [ih]
    rfl

/-- The last of some words, or another one. -/
def lastOr (word : U32) (words : List U32) : U32 := words.getLast?.getD word

theorem lastOr_cons (word first : U32) (words : List U32) :
    lastOr word (first :: words) = lastOr first words := by
  cases words with
  | nil => rfl
  | cons second words =>
    unfold lastOr
    rw [List.getLast?_cons_cons]
    cases found : (second :: words).getLast? with
    | none => simp at found
    | some last => rfl

theorem readGateway_gateways (nexthop : List U32) (n : Nat) (last index : U32) (rest : List U8) :
    readGateway (nexthop.length + n) (last, index)
        (nexthop.flatMap (fun gate => zebraNexthopIpv4 :: putl gate) ++ rest) =
      readGateway n (lastOr last nexthop, index) rest := by
  induction nexthop generalizing last with
  | nil => simp [lastOr]
  | cons gate nexthop ih =>
    have other : zebraNexthopIpv4 ≠ zebraNexthopIfindex ∧
        zebraNexthopIpv4 ≠ zebraNexthopIfname := by
      decide
    rw [List.length_cons, Nat.add_right_comm, List.flatMap_cons, List.append_assoc, lastOr_cons]
    conv => lhs; unfold readGateway
    simp only [List.cons_append, streamGetc_cons, Option.bind_eq_bind, Option.bind_some, other.1,
      other.2, if_false, if_true, streamGetl_putl]
    exact ih gate

theorem readGateway_interfaces (ifindex : List U32) (n : Nat) (gate last : U32) (rest : List U8) :
    readGateway (ifindex.length + n) (gate, last)
        (ifindex.flatMap (fun ifindex => zebraNexthopIfindex :: putl ifindex) ++ rest) =
      readGateway n (gate, lastOr last ifindex) rest := by
  induction ifindex generalizing last with
  | nil => simp [lastOr]
  | cons index ifindex ih =>
    rw [List.length_cons, Nat.add_right_comm, List.flatMap_cons, List.append_assoc, lastOr_cons]
    conv => lhs; unfold readGateway
    simp only [List.cons_append, streamGetc_cons, Option.bind_eq_bind, Option.bind_some, if_true,
      streamGetl_putl]
    exact ih index

/-! ### Whole messages -/

/-- What a client may send: no next hop beside a black hole, and no more than can be
counted. -/
structure Sendable (api : ZapiIpv4) : Prop where
  alone : check api.flags zebraFlagBlackhole = true → api.nexthop = [] ∧ api.ifindex = []
  countable : api.nexthop.length + api.ifindex.length ≤ 255

variable {api : ZapiIpv4}

theorem Sendable.count (sendable : Sendable api) :
    (BitVec.ofNat 8 (api.nexthop.length + api.ifindex.length)).toNat =
      api.nexthop.length + (api.ifindex.length + 0) := by
  have countable := sendable.countable
  rw [BitVec.toNat_ofNat]
  exact Nat.mod_eq_of_lt (by omega)

/-- The next hops that a message is to give a route. -/
def hopsOf (api : ZapiIpv4) : List Nexthop :=
  if check api.message zapiMessageNexthop then
    if check api.flags zebraFlagBlackhole then [{ type := .blackhole }]
    else gatewayHops api.nexthop ++ interfaceHops api.ifindex
  else []

/-- The gateway that a message picks for a deletion. -/
def gatewayOf (api : ZapiIpv4) : U32 :=
  if check api.message zapiMessageNexthop then lastOr 0 api.nexthop else 0

/-- The interface that it picks. -/
def interfaceOf (api : ZapiIpv4) : U32 :=
  if check api.message zapiMessageNexthop then lastOr 0 api.ifindex else 0

theorem set_blackhole {flags : U8} (marked : check flags zebraFlagBlackhole = true) :
    set flags zebraFlagBlackhole = flags := by
  revert flags
  decide

/-- The next hops of a message are read back. -/
theorem readNexthops_written (sendable : Sendable api) (rib : Rib) (flags : rib.flags = api.flags)
    (rest : List U8) :
    ∃ count s, putNexthops api ++ rest = count :: s ∧
      readNexthops count.toNat rib s =
        some (addHops rib (if check api.flags zebraFlagBlackhole then [{ type := .blackhole }]
          else gatewayHops api.nexthop ++ interfaceHops api.ifindex), rest) := by
  unfold putNexthops
  by_cases blackhole : check api.flags zebraFlagBlackhole = true
  · obtain ⟨noGateway, noInterface⟩ := sendable.alone blackhole
    rw [if_pos blackhole, if_pos blackhole, noGateway, noInterface]
    refine ⟨1, zebraNexthopBlackhole :: rest, rfl, ?_⟩
    have kept : { rib with flags := set rib.flags zebraFlagBlackhole } = rib := by
      rw [flags, set_blackhole blackhole, ← flags]
    have added : nexthopBlackholeAdd rib = addHops rib [{ type := .blackhole }] := by
      unfold nexthopBlackholeAdd
      rw [kept]
      rfl
    rw [← added]
    rfl
  · rw [if_neg blackhole, if_neg blackhole, List.append_assoc, List.append_assoc]
    refine ⟨_, _, List.cons_append.trans (congrArg _ (List.nil_append _)), ?_⟩
    rw [sendable.count, readNexthops_gateways, readNexthops_interfaces, addHops_append]
    rfl

/-- And so are the gateway and the interface of a deletion. -/
theorem readGateway_written (sendable : Sendable api) (rest : List U8) :
    ∃ count s, putNexthops api ++ rest = count :: s ∧
      readGateway count.toNat (0, 0) s =
        some ((lastOr 0 api.nexthop, lastOr 0 api.ifindex), rest) := by
  unfold putNexthops
  by_cases blackhole : check api.flags zebraFlagBlackhole = true
  · obtain ⟨noGateway, noInterface⟩ := sendable.alone blackhole
    rw [if_pos blackhole, noGateway, noInterface]
    exact ⟨1, zebraNexthopBlackhole :: rest, rfl, rfl⟩
  · rw [if_neg blackhole, List.append_assoc, List.append_assoc]
    refine ⟨_, _, List.cons_append.trans (congrArg _ (List.nil_append _)), ?_⟩
    rw [sendable.count, readGateway_gateways, readGateway_interfaces]
    rfl

/-- The route that a message is to add. -/
def ribOf (table : Nat) (api : ZapiIpv4) : Rib :=
  { addHops { type := api.type, flags := api.flags, table } (hopsOf api) with
    distance := if check api.message zapiMessageDistance then api.distance else 0
    metric := if check api.message zapiMessageMetric then api.metric else 0 }

/-- The body of a message is its start, its next hops and its tail. -/
theorem routeBody_parts (p : Prefix) (api : ZapiIpv4) :
    routeBody p api =
      [routeTypeCode api.type, api.flags, api.message, BitVec.ofNat 8 p.prefixlen] ++ p.octets
        ++ ((if check api.message zapiMessageNexthop then putNexthops api else [])
          ++ ((if check api.message zapiMessageDistance then [api.distance] else [])
            ++ (if check api.message zapiMessageMetric then putl api.metric else []) ++ [])) := by
  unfold routeBody
  simp

/-- A message that adds a route is read whole. -/
theorem readRib_written (ipv4 : p.family = .ip) (sendable : Sendable api) (table : Nat) :
    readRib table (routeBody p api) = some ((p, ribOf table api), []) := by
  have tail := readTail_written api.message api.distance api.metric []
  rw [routeBody_parts]
  unfold readRib
  rw [readRouteHead_written ipv4]
  simp only [Option.bind_eq_bind, Option.bind_some]
  by_cases hops : check api.message zapiMessageNexthop = true
  · obtain ⟨count, s, written, read⟩ := readNexthops_written sendable
      { type := api.type, flags := api.flags, table } rfl
      ((if check api.message zapiMessageDistance then [api.distance] else [])
        ++ (if check api.message zapiMessageMetric then putl api.metric else []) ++ [])
    rw [if_pos hops, if_pos hops, written]
    simp only [streamGetc_cons, Option.bind_some, read, tail]
    unfold ribOf hopsOf
    rw [if_pos hops]
  · rw [if_neg hops, if_neg hops, List.nil_append]
    simp only [Option.bind_some, tail]
    unfold ribOf hopsOf
    rw [if_neg hops]
    rfl

theorem zreadIpv4Add_written (ipv4 : p.family = .ip) (sendable : Sendable api) (beyond : U8)
    (table : Nat) (z : Zebra) :
    zreadIpv4Add beyond table z (routeBody p api) =
      some (ribAddIpv4Multipath beyond p (ribOf table api) z, []) := by
  unfold zreadIpv4Add
  rw [readRib_written ipv4 sendable]
  rfl

theorem zreadIpv4Delete_written (ipv4 : p.family = .ip) (sendable : Sendable api) (z : Zebra) :
    zreadIpv4Delete z (routeBody p api) =
      some (ribDeleteIpv4 api.type p (some (gatewayOf api)) (interfaceOf api) z, []) := by
  have tail := readTail_written api.message api.distance api.metric []
  rw [routeBody_parts]
  unfold zreadIpv4Delete
  rw [readRouteHead_written ipv4]
  simp only [Option.bind_eq_bind, Option.bind_some]
  by_cases hops : check api.message zapiMessageNexthop = true
  · obtain ⟨count, s, written, read⟩ := readGateway_written sendable
      ((if check api.message zapiMessageDistance then [api.distance] else [])
        ++ (if check api.message zapiMessageMetric then putl api.metric else []) ++ [])
    rw [if_pos hops, if_pos hops, written]
    simp only [streamGetc_cons, Option.bind_some, read, tail]
    unfold gatewayOf interfaceOf
    rw [if_pos hops, if_pos hops]
  · rw [if_neg hops, if_neg hops, List.nil_append]
    simp only [Option.bind_some, tail]
    unfold gatewayOf interfaceOf
    rw [if_neg hops, if_neg hops]

/-- A message that fits the reader's buffer reaches its handler. -/
theorem zebraClientRead_written (beyond : U8) (table size : Nat) (z : Zebra) (command : U16)
    (p : Prefix) (api : ZapiIpv4) (fits : (zapiIpv4Route command p api).length ≤ size)
    (small : size < 65536) :
    zebraClientRead beyond table size z (zapiIpv4Route command p api) =
      if command = zebraIpv4RouteAdd then zreadIpv4Add beyond table z (routeBody p api)
      else if command = zebraIpv4RouteDelete then zreadIpv4Delete z (routeBody p api)
      else none := by
  have whole : (zapiIpv4Route command p api).length = 6 + (routeBody p api).length := by
    simp only [zapiIpv4Route, zclientCreateHeader, List.length_append, putw_length,
      List.length_cons, List.length_nil]
  have length : (getw (zapiIpv4Route command p api)).toNat = 6 + (routeBody p api).length := by
    unfold zapiIpv4Route zclientCreateHeader
    rw [List.append_assoc, List.append_assoc, getw_putw, BitVec.toNat_ofNat]
    exact Nat.mod_eq_of_lt (by omega)
  have behind : (zapiIpv4Route command p api).drop 4 = putw command ++ routeBody p api := rfl
  have body : (zapiIpv4Route command p api).drop 6 = routeBody p api := rfl
  have marker : (zapiIpv4Route command p api)[2]? = some 255 := rfl
  have version : (zapiIpv4Route command p api)[3]? = some 1 := rfl
  unfold zebraClientRead
  simp only [length, whole, behind, body, getw_putw, marker, version]
  rw [if_neg (by omega), if_neg (by simp), if_neg (by omega)]

end Bgpd.Zapi
