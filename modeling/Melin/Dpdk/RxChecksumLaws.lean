import Melin.Dpdk.RxChecksum

/-! What receive checksum admission lets through: frames whose unvouched checksums are correct. -/

namespace Melin.Dpdk

open Lib

variable {sum place start : Nat} {packet bytes : Bytes}

theorem addU32_eq {word : Nat} (room : sum + word < 2 ^ 32) :
    addU32 sum word = some (sum + word) := if_pos room

theorem sumWords_eq {region : Bytes} (room : sum + (beWords region).sum < 2 ^ 32) :
    sumWords region sum = some (sum + (beWords region).sum) := by
  -- The induction carries the room along: what a word takes is missing behind it.
  fun_induction sumWords region sum with
  | case1 high low rest sum ih =>
    simp only [beWords, List.sum_cons] at room ⊢
    rw [addU32_eq (by unfold fromBeBytes; omega), Option.bind_eq_bind, Option.bind_some,
      ih _ (by unfold fromBeBytes; omega), fromBeBytes, Nat.add_assoc]
  | case2 sum last =>
    simp only [beWords, List.sum_singleton] at room ⊢
    rw [Nat.shiftLeft_eq, Nat.mul_comm, addU32_eq room]
  | case3 sum => simp [beWords]

theorem fold_eq (sum : Nat) : fold sum = onesResidue sum := by
  fun_induction fold sum with
  | case1 sum large ih =>
    have low : sum &&& 0xFFFF = sum % 0x10000 := Nat.and_two_pow_sub_one_eq_mod sum 16
    rw [ih, low, Nat.shiftRight_eq_div_pow]
    exact onesResidue_carry sum
  | case2 sum small => exact (onesResidue_small (by omega)).symm

theorem sumsUp_eq {region : Bytes} (room : sum + (beWords region).sum < 2 ^ 32) :
    sumsUp region sum
      = some (decide (onesResidue (sum + (beWords region).sum) = 0xFFFF)) := by
  rw [sumsUp, sumWords_eq room, Option.map_some, fold_eq, Option.some.injEq]
  exact beq_eq_decide _ _

def packetOf (frame : Bytes) : Bytes := frame.drop ethHeaderLen

def IsIpv4 (frame : Bytes) : Prop :=
  ethHeaderLen ≤ frame.length ∧ slice frame 12 2 = ethertypeIpv4

structure LengthsFit (packet : Bytes) : Prop where
  long : ipv4MinHeaderLen ≤ packet.length
  version : octet packet 0 >>> 4 = 4
  header : ipv4MinHeaderLen ≤ headerLen packet
  total : headerLen packet ≤ totalLen packet
  inside : totalLen packet ≤ packet.length

def IsTcp (packet : Bytes) : Prop := octet packet 9 = ipProtoTcp ∧ fragmented packet = false

def headerRegion (packet : Bytes) : Bytes := packet.take (headerLen packet)

def pseudoHeader (packet : Bytes) : Bytes :=
  slice packet 12 8 ++ [0, ipProtoTcp, UInt8.ofNat ((segment packet).length / 256),
    UInt8.ofNat ((segment packet).length % 256)]

/-- What the TCP checksum covers: the pseudo-header, and the datagram behind its header. -/
def tcpRegion (packet : Bytes) : Bytes := pseudoHeader packet ++ segment packet

theorem totalLen_lt (packet : Bytes) : totalLen packet < 0x10000 := by
  have high := (octet packet 2).toNat_lt
  have low := (octet packet 3).toNat_lt
  unfold totalLen fromBeBytes
  omega

theorem headerLen_lt (packet : Bytes) : headerLen packet < 0x400 := by
  have first := (octet packet 0 &&& 0x0F).toNat_lt
  unfold headerLen
  omega

theorem segment_length_lt (packet : Bytes) : (segment packet).length < 0x10000 := by
  have total := totalLen_lt packet
  simp only [segment, slice, List.length_take, List.length_drop]
  omega

theorem pseudoHeader_length (long : ipv4MinHeaderLen ≤ packet.length) :
    (pseudoHeader packet).length = 12 := by
  unfold ipv4MinHeaderLen at long
  simp [pseudoHeader, slice_length (show 12 + 8 ≤ packet.length by omega)]

theorem tcpRegion_sum (long : ipv4MinHeaderLen ≤ packet.length) :
    (beWords (tcpRegion packet)).sum = (beWords (slice packet 12 8)).sum + ipProtoTcp.toNat
      + (segment packet).length + (beWords (segment packet)).sum := by
  have even : (pseudoHeader packet).length % 2 = 0 := by rw [pseudoHeader_length long]
  unfold ipv4MinHeaderLen at long
  have evenFront : (slice packet 12 8).length % 2 = 0 := by
    rw [slice_length (by omega)]
  have short := segment_length_lt packet
  have high : (segment packet).length / 256 % 256 = (segment packet).length / 256 := by omega
  rw [tcpRegion, beWords_append _ even, pseudoHeader, beWords_append _ evenFront]
  simp only [beWords, List.sum_append, List.sum_cons, List.sum_nil, UInt8.toNat_ofNat', high,
    UInt8.toNat_zero]
  omega

theorem headerSumsUp_eq (packet : Bytes) : ∃ ok, sumsUp (headerRegion packet) 0 = some ok ∧
    (ok = true ↔ ChecksumCorrect (headerRegion packet)) := by
  have bound := beWords_sum_le (headerRegion packet)
  have short := headerLen_lt packet
  have width : (headerRegion packet).length ≤ headerLen packet := List.length_take_le _ _
  refine ⟨_, sumsUp_eq (by omega), ?_⟩
  rw [decide_eq_true_iff, Nat.zero_add, onesResidue_allOnes_iff, checksumCorrect_iff]

theorem tcpSumsUp_eq (long : ipv4MinHeaderLen ≤ packet.length) :
    ∃ ok, tcpSumsUp packet = some ok ∧
      (ok = true ↔ tcpMinHeaderLen ≤ (segment packet).length ∧
        ChecksumCorrect (tcpRegion packet)) := by
  unfold tcpSumsUp
  split
  case isTrue short => exact ⟨false, rfl, by simp only [Bool.false_eq_true, false_iff]; omega⟩
  case isFalse whole =>
    have bound := beWords_sum_le (segment packet)
    have front := beWords_sum_le (slice packet 12 8)
    have narrow : (slice packet 12 8).length ≤ 8 := List.length_take_le _ _
    have short := segment_length_lt packet
    have protocol := ipProtoTcp.toNat_lt
    simp only [Option.bind_eq_bind]
    rw [sumWords_eq (by omega), Option.bind_some, addU32_eq (by omega), Option.bind_some,
      addU32_eq (by omega), Option.bind_some]
    refine ⟨_, sumsUp_eq (by omega), ?_⟩
    rw [decide_eq_true_iff, onesResidue_allOnes_iff, checksumCorrect_iff, tcpRegion_sum long,
      Nat.zero_add]
    exact ⟨fun sums => ⟨by omega, sums⟩, And.right⟩

structure Verified (packet : Bytes) (ip l4 : Bool) : Prop where
  fits : LengthsFit packet
  header : ip = true → ChecksumCorrect (headerRegion packet)
  tcp : l4 = true → IsTcp packet →
    tcpMinHeaderLen ≤ (segment packet).length ∧ ChecksumCorrect (tcpRegion packet)

theorem packetValid_eq (packet : Bytes) (ip l4 : Bool) :
    ∃ ok, packetValid packet ip l4 = some ok ∧ (ok = true ↔ Verified packet ip l4) := by
  unfold packetValid
  split
  case isTrue malformed =>
    refine ⟨false, rfl, iff_of_false Bool.false_ne_true fun verified => ?_⟩
    exact malformed.elim (Nat.not_lt.mpr verified.fits.long) (absurd verified.fits.version)
  case isFalse start =>
    simp only [not_or, Nat.not_lt, not_not] at start
    split
    case isTrue misfit =>
      refine ⟨false, rfl, iff_of_false Bool.false_ne_true fun verified => ?_⟩
      have header := verified.fits.header
      have total := verified.fits.total
      have inside := verified.fits.inside
      omega
    case isFalse lengths =>
      simp only [not_or, Nat.not_lt] at lengths
      have fits : LengthsFit packet := ⟨start.1, start.2, lengths.1, lengths.2.1, lengths.2.2⟩
      obtain ⟨headerOk, summed, headerIff⟩ := headerSumsUp_eq packet
      obtain ⟨tcpOk, tcpSummed, tcpIff⟩ := tcpSumsUp_eq fits.long
      -- Whatever is not asked for counts as correct.
      have asked : (if ip then sumsUp (packet.take (headerLen packet)) 0 else some true)
          = some (!ip || headerOk) := by
        cases ip
        · rfl
        · exact summed
      rw [asked, Option.bind_some]
      split
      case isTrue wrong =>
        refine ⟨false, rfl, iff_of_false Bool.false_ne_true fun verified => ?_⟩
        cases ip
        · cases wrong
        · rw [headerIff.mpr (verified.header rfl)] at wrong
          cases wrong
      case isFalse right =>
        have header : ip = true → ChecksumCorrect (headerRegion packet) := by
          intro isAsked
          subst isAsked
          exact headerIff.mp (by simpa using right)
        split
        case isTrue checked =>
          simp only [Bool.and_eq_true, beq_iff_eq, Bool.not_eq_true'] at checked
          exact ⟨tcpOk, tcpSummed, fun ok => ⟨fits, header, fun _ _ => tcpIff.mp ok⟩,
            fun verified => tcpIff.mpr (verified.tcp checked.1.1 ⟨checked.1.2, checked.2⟩)⟩
        case isFalse unchecked =>
          refine ⟨true, rfl, iff_of_true rfl ⟨fits, header, fun l4Asked isTcp => ?_⟩⟩
          exact absurd (by simp [l4Asked, isTcp.1, isTcp.2]) unchecked

theorem checksumsValid_eq (frame : Bytes) (ip l4 : Bool) :
    ∃ ok, checksumsValid frame ip l4 = some ok ∧
      (ok = true ↔ (IsIpv4 frame → Verified (packetOf frame) ip l4)) := by
  unfold checksumsValid
  split
  case isTrue other =>
    refine ⟨true, rfl, iff_of_true rfl fun ipv4 => ?_⟩
    exact other.elim (fun short => absurd ipv4.1 (by omega)) (absurd ipv4.2)
  case isFalse found =>
    simp only [not_or, Nat.not_lt, not_not] at found
    rw [forall_prop_of_true (p := IsIpv4 frame) found]
    exact packetValid_eq (packetOf frame) ip l4

/-- The status two documented bits stand for: the NIC vouched, the NIC found it wrong. -/
def statusOf : Bool → Bool → ChecksumStatus
  | true, true => .integrityVerified
  | true, false => .good
  | false, true => .bad
  | false, false => .unknown

theorem ipStatus_dpdk (olFlags : UInt64) : RxChecksumFlags.dpdk.ipStatus olFlags
    = statusOf (olFlags.toNat.testBit 7) (olFlags.toNat.testBit 4) := by
  -- Under the mask, the flags are the two bits and nothing else.
  have masked : (olFlags &&& RxChecksumFlags.dpdk.ipMask).toNat
      = ((olFlags.toNat.testBit 4).toNat * 2 ^ 4) ||| (olFlags.toNat.testBit 7).toNat * 2 ^ 7 := by
    rw [← Nat.and_two_pow, ← Nat.and_two_pow, ← Nat.and_or_distrib_left]
    rfl
  simp only [RxChecksumFlags.ipStatus, status, ← UInt64.toNat_inj, masked]
  cases olFlags.toNat.testBit 7 <;> cases olFlags.toNat.testBit 4 <;> decide

theorem l4Status_dpdk (olFlags : UInt64) : RxChecksumFlags.dpdk.l4Status olFlags
    = statusOf (olFlags.toNat.testBit 8) (olFlags.toNat.testBit 3) := by
  have masked : (olFlags &&& RxChecksumFlags.dpdk.l4Mask).toNat
      = ((olFlags.toNat.testBit 3).toNat * 2 ^ 3) ||| (olFlags.toNat.testBit 8).toNat * 2 ^ 8 := by
    rw [← Nat.and_two_pow, ← Nat.and_two_pow, ← Nat.and_or_distrib_left]
    rfl
  simp only [RxChecksumFlags.l4Status, status, ← UInt64.toNat_inj, masked]
  cases olFlags.toNat.testBit 8 <;> cases olFlags.toNat.testBit 3 <;> decide

namespace RxChecksumPolicy

def IpUnvouched (policy : RxChecksumPolicy) (olFlags : UInt64) : Prop :=
  policy.ipOffloaded = true ∧ olFlags.toNat.testBit 7 = false

def L4Unvouched (policy : RxChecksumPolicy) (olFlags : UInt64) : Prop :=
  policy.l4Offloaded = true ∧ olFlags.toNat.testBit 8 = false

def FoundBad (policy : RxChecksumPolicy) (olFlags : UInt64) : Prop :=
  policy.IpUnvouched olFlags ∧ olFlags.toNat.testBit 4 = true ∨
    policy.L4Unvouched olFlags ∧ olFlags.toNat.testBit 3 = true

instance (policy : RxChecksumPolicy) (olFlags : UInt64) :
    Decidable (policy.IpUnvouched olFlags) := inferInstanceAs (Decidable (_ ∧ _))

instance (policy : RxChecksumPolicy) (olFlags : UInt64) :
    Decidable (policy.L4Unvouched olFlags) := inferInstanceAs (Decidable (_ ∧ _))

instance (policy : RxChecksumPolicy) (olFlags : UInt64) :
    Decidable (policy.FoundBad olFlags) := inferInstanceAs (Decidable (_ ∧ _ ∨ _ ∧ _))

variable {policy : RxChecksumPolicy}

theorem verdict_eq (documented : policy.flags = .dpdk) (olFlags : UInt64) :
    policy.verdict olFlags =
      if policy.FoundBad olFlags then .drop
      else if policy.IpUnvouched olFlags ∨ policy.L4Unvouched olFlags then
        .verify (policy.IpUnvouched olFlags) (policy.L4Unvouched olFlags)
      else .accept := by
  -- The verdict reads nothing but the two offload settings and the four bits.
  cases ip : policy.ipOffloaded <;> cases l4 : policy.l4Offloaded <;>
    cases ipGood : olFlags.toNat.testBit 7 <;> cases ipBad : olFlags.toNat.testBit 4 <;>
    cases l4Good : olFlags.toNat.testBit 8 <;> cases l4Bad : olFlags.toNat.testBit 3 <;>
    simp [verdict, documented, ipStatus_dpdk, l4Status_dpdk, statusOf, IpUnvouched, L4Unvouched,
      FoundBad, ip, l4, ipGood, ipBad, l4Good, l4Bad]

theorem admits_eq (documented : policy.flags = .dpdk) (olFlags : UInt64) (frame : Bytes) :
    ∃ ok, policy.admits olFlags frame = some ok ∧
      (ok = true ↔ ¬ policy.FoundBad olFlags ∧
        (policy.IpUnvouched olFlags ∨ policy.L4Unvouched olFlags → IsIpv4 frame →
          Verified (packetOf frame) (policy.IpUnvouched olFlags) (policy.L4Unvouched olFlags))) := by
  rw [admits, verdict_eq documented]
  by_cases bad : policy.FoundBad olFlags
  · exact ⟨false, by simp [bad], by simp [bad]⟩
  by_cases unvouched : policy.IpUnvouched olFlags ∨ policy.L4Unvouched olFlags
  · obtain ⟨ok, answered, okIff⟩ := checksumsValid_eq frame (policy.IpUnvouched olFlags)
      (policy.L4Unvouched olFlags)
    refine ⟨ok, by rw [if_neg bad, if_pos unvouched]; exact answered, ?_⟩
    rw [okIff]
    exact ⟨fun verified => ⟨bad, fun _ => verified⟩, fun both => both.2 unvouched⟩
  · exact ⟨true, by rw [if_neg bad, if_neg unvouched],
      iff_of_true rfl ⟨bad, fun some => absurd some unvouched⟩⟩

end RxChecksumPolicy

theorem setWord_append_left {front back : Bytes} (high low : UInt8)
    (inside : place + 1 < front.length) :
    setWord (front ++ back) place high low = setWord front place high low ++ back := by
  rw [setWord, List.set_append_left _ _ (by omega),
    List.set_append_left _ _ (by simpa using inside), setWord]

theorem setWord_append_right {front back : Bytes} (high low : UInt8) (behind : front.length ≤ place) :
    
    setWord (front ++ back) place high low
      = front ++ setWord back (place - front.length) high low := by
  rw [setWord, List.set_append_right _ _ behind, List.set_append_right _ _ (by omega), setWord,
    Nat.sub_add_comm behind]

theorem octet_setWord {index : Nat} (high low : UInt8) (apart : index ≠ place ∧ index ≠ place + 1) :
    octet (setWord packet place high low) index = octet packet index := by
  simp only [octet, setWord, List.getD_eq_getElem?_getD]
  rw [List.getElem?_set_ne (Ne.symm apart.2), List.getElem?_set_ne (Ne.symm apart.1)]

theorem drop_setWord (high low : UInt8) (behind : start ≤ place) :
    (setWord bytes place high low).drop start = setWord (bytes.drop start) (place - start) high low := by
  have shift : place + 1 - start = place - start + 1 := by omega
  simp only [setWord]
  rw [List.drop_set, if_neg (by omega), List.drop_set, if_neg (by omega), shift]

theorem slice_setWord (count : Nat) (high low : UInt8) (behind : start ≤ place) :
    slice (setWord bytes place high low) start count
      = setWord (slice bytes start count) (place - start) high low := by
  rw [slice, drop_setWord high low behind, slice]
  simp only [setWord, List.take_set]

theorem slice_setWord_apart {count : Nat} (high low : UInt8)
    (apart : place + 1 < start ∨ start + count ≤ place) :
    slice (setWord bytes place high low) start count = slice bytes start count := by
  rcases apart with before | behind
  · simp only [slice, setWord]
    rw [List.drop_set, if_pos (by omega), List.drop_set, if_pos (by omega)]
  · have width : (slice bytes start count).length ≤ count := List.length_take_le _ _
    rw [slice_setWord count high low (by omega), setWord, List.set_eq_of_length_le (by simp; omega),
      List.set_eq_of_length_le (by omega)]

/-- The places where a word of a region that was verified may be changed: the region, the offset in
the packet, and which word of the region it is. The words with the version and the header's length,
the datagram's length, the fragment fields and the protocol are none of them. -/
inductive RxChecksumPolicy.Covers (policy : RxChecksumPolicy) (olFlags : UInt64)
    (packet : Bytes) : (Bytes → Bytes) → Nat → Nat → Prop
  | header {index : Nat} (unvouched : policy.IpUnvouched olFlags)
      (inside : 2 * index < headerLen packet) (other : index ∉ [0, 1, 3, 4]) :
      Covers policy olFlags packet headerRegion (2 * index) index
  | address {index : Nat} (unvouched : policy.L4Unvouched olFlags) (tcp : IsTcp packet)
      (inside : index < 4) : Covers policy olFlags packet tcpRegion (12 + 2 * index) index
  | segment {index : Nat} (unvouched : policy.L4Unvouched olFlags) (tcp : IsTcp packet)
      (inside : headerLen packet + 2 * index < totalLen packet) :
      Covers policy olFlags packet tcpRegion (headerLen packet + 2 * index) (6 + index)

namespace RxChecksumPolicy.Covers

variable {policy : RxChecksumPolicy} {olFlags : UInt64} {packet : Bytes}
  {region : Bytes → Bytes} {place index : Nat}

theorem unvouched (covers : policy.Covers olFlags packet region place index) :
    policy.IpUnvouched olFlags ∨ policy.L4Unvouched olFlags := by
  cases covers with
  | header unvouched => exact .inl unvouched
  | address unvouched => exact .inr unvouched
  | segment unvouched => exact .inr unvouched

theorem correct (covers : policy.Covers olFlags packet region place index)
    (verified : Verified packet (policy.IpUnvouched olFlags) (policy.L4Unvouched olFlags)) :
    ChecksumCorrect (region packet) := by
  cases covers with
  | header unvouched => exact verified.header (decide_eq_true unvouched)
  | address unvouched tcp => exact (verified.tcp (decide_eq_true unvouched) tcp).2
  | segment unvouched tcp => exact (verified.tcp (decide_eq_true unvouched) tcp).2

theorem octet_eq (covers : policy.Covers olFlags packet region place index)
    (fits : LengthsFit packet) (high low : UInt8) :
    ∀ field ∈ [0, 2, 3, 6, 7, 9],
      octet (setWord packet place high low) field = octet packet field := by
  intro field member
  apply octet_setWord
  have header := fits.header
  unfold ipv4MinHeaderLen at header
  simp only [List.mem_cons, List.not_mem_nil, or_false] at member
  cases covers with
  | header _ _ other =>
    simp only [List.mem_cons, List.not_mem_nil, or_false, not_or] at other
    omega
  | address => omega
  | segment => omega

theorem setWord (covers : policy.Covers olFlags packet region place index)
    (fits : LengthsFit packet) (high low : UInt8) :
    policy.Covers olFlags (setWord packet place high low) region place index ∧
      region (Lib.setWord packet place high low)
        = Lib.setWord (region packet) (2 * index) high low := by
  have same := covers.octet_eq fits high low
  have headerEq : headerLen (Lib.setWord packet place high low) = headerLen packet := by
    simp [headerLen, same]
  have totalEq : totalLen (Lib.setWord packet place high low) = totalLen packet := by
    simp [totalLen, same]
  have tcpIff : IsTcp (Lib.setWord packet place high low) ↔ IsTcp packet := by
    simp [IsTcp, fragmented, same]
  have long := fits.long
  have header := fits.header
  have eight := slice_length (show 12 + 8 ≤ packet.length by unfold ipv4MinHeaderLen at long; omega)
  unfold ipv4MinHeaderLen at header
  cases covers with
  | header unvouched inside other =>
    refine ⟨.header unvouched (headerEq ▸ inside) other, ?_⟩
    rw [headerRegion, headerEq, headerRegion]
    simp only [Lib.setWord, List.take_set]
  | address unvouched tcp inside =>
    refine ⟨.address unvouched (tcpIff.mpr tcp) inside, ?_⟩
    have kept : Dpdk.segment (Lib.setWord packet (12 + 2 * index) high low) = Dpdk.segment packet := by
      rw [Dpdk.segment, headerEq, totalEq, slice_setWord_apart high low (by omega), Dpdk.segment]
    rw [tcpRegion, tcpRegion, pseudoHeader, pseudoHeader, kept,
      slice_setWord 8 high low (by omega), Nat.add_sub_cancel_left, List.append_assoc,
      List.append_assoc, setWord_append_left high low (by omega)]
  | @segment index unvouched tcp inside =>
    have covered := @Covers.segment policy olFlags _ index unvouched (tcpIff.mpr tcp)
      (by rw [headerEq, totalEq]; exact inside)
    rw [headerEq] at covered
    refine ⟨covered, ?_⟩
    have changed : Dpdk.segment (Lib.setWord packet (headerLen packet + 2 * index) high low)
        = Lib.setWord (Dpdk.segment packet) (2 * index) high low := by
      rw [Dpdk.segment, headerEq, totalEq, slice_setWord _ high low (by omega),
        Nat.add_sub_cancel_left, Dpdk.segment]
    have front : pseudoHeader (Lib.setWord packet (headerLen packet + 2 * index) high low)
        = pseudoHeader packet := by
      rw [pseudoHeader, changed, slice_setWord_apart high low (by omega), pseudoHeader]
      simp [Lib.setWord]
    rw [tcpRegion, tcpRegion, front, changed,
      setWord_append_right high low (by rw [pseudoHeader_length long]; omega),
      pseudoHeader_length long, show 2 * (6 + index) - 12 = 2 * index by omega]

end RxChecksumPolicy.Covers

/-- Every frame gets an answer, as no running sum overflows. An IPv4 packet that is let through has
the checksums the NIC did not vouch for correct, over exactly the header and over exactly the
pseudo-header and the segment; a well-formed one with those correct and nothing found wrong is let
through; and with one covered word altered it is refused. -/
theorem receive_checksum_admission {ip l4 : Bool} {policy : RxChecksumPolicy}
    (offloads : RxChecksumPolicy.new .dpdk ip l4 = some policy) (olFlags : UInt64)
    (frame : Bytes) :
    (∃ answer, policy.admits olFlags frame = some answer) ∧
    (policy.admits olFlags frame = some true → IsIpv4 frame →
      (policy.IpUnvouched olFlags ∨ policy.L4Unvouched olFlags → LengthsFit (packetOf frame)) ∧
      (policy.IpUnvouched olFlags → ChecksumCorrect (headerRegion (packetOf frame))) ∧
      (policy.L4Unvouched olFlags → IsTcp (packetOf frame) →
        ChecksumCorrect (tcpRegion (packetOf frame)))) ∧
    (LengthsFit (packetOf frame) →
      (IsTcp (packetOf frame) → tcpMinHeaderLen ≤ (segment (packetOf frame)).length) →
      ¬ policy.FoundBad olFlags →
      (policy.IpUnvouched olFlags → ChecksumCorrect (headerRegion (packetOf frame))) →
      (policy.L4Unvouched olFlags → IsTcp (packetOf frame) →
        ChecksumCorrect (tcpRegion (packetOf frame))) →
      policy.admits olFlags frame = some true) ∧
    ∀ region place index high low old new,
      policy.admits olFlags frame = some true → IsIpv4 frame →
      policy.Covers olFlags (packetOf frame) region place index →
      (beWords (region (packetOf frame)))[index]? = some old →
      (beWords (region (packetOf (setWord frame (ethHeaderLen + place) high low))))[index]?
        = some new →
      Altered old new →
      policy.admits olFlags (setWord frame (ethHeaderLen + place) high low) = some false := by
  have documented : policy.flags = .dpdk := by
    rw [RxChecksumPolicy.new] at offloads
    split at offloads <;> cases offloads
    rfl
  have verified : ∀ frame, policy.admits olFlags frame = some true → IsIpv4 frame →
      policy.IpUnvouched olFlags ∨ policy.L4Unvouched olFlags →
      Verified (packetOf frame) (policy.IpUnvouched olFlags) (policy.L4Unvouched olFlags) := by
    intro frame accepted ipv4 unvouched
    obtain ⟨ok, answered, okIff⟩ := RxChecksumPolicy.admits_eq documented olFlags frame
    rw [accepted, Option.some.injEq] at answered
    exact (okIff.mp answered.symm).2 unvouched ipv4
  obtain ⟨ok, answered, okIff⟩ := RxChecksumPolicy.admits_eq documented olFlags frame
  refine ⟨⟨ok, answered⟩, ?_, ?_, ?_⟩
  · intro accepted ipv4
    have checked := verified frame accepted ipv4
    exact ⟨fun unvouched => (checked unvouched).fits,
      fun unvouched => (checked (.inl unvouched)).header (decide_eq_true unvouched),
      fun unvouched tcp => ((checked (.inr unvouched)).tcp (decide_eq_true unvouched) tcp).2⟩
  · intro fits whole good header tcp
    rw [answered, Option.some.injEq, okIff]
    exact ⟨good, fun _ _ => ⟨fits, fun unvouched => header (of_decide_eq_true unvouched),
      fun unvouched isTcp => ⟨whole isTcp, tcp (of_decide_eq_true unvouched) isTcp⟩⟩⟩
  · intro region place index high low old new accepted ipv4 covers was is altered
    have checked := verified frame accepted ipv4 covers.unvouched
    obtain ⟨coversStill, changed⟩ := covers.setWord checked.fits high low
    have packetEq : packetOf (setWord frame (ethHeaderLen + place) high low)
        = setWord (packetOf frame) place high low := by
      rw [packetOf, drop_setWord high low (by omega), Nat.add_sub_cancel_left, packetOf]
    -- The frame behind the change is IPv4 too, so letting it through would verify the same region.
    have stillIpv4 : IsIpv4 (setWord frame (ethHeaderLen + place) high low) := by
      refine ⟨by simpa [setWord] using ipv4.1, ?_⟩
      rw [slice_setWord_apart high low (by unfold ethHeaderLen; omega)]
      exact ipv4.2
    obtain ⟨answer, answeredStill, -⟩ := RxChecksumPolicy.admits_eq documented olFlags
      (setWord frame (ethHeaderLen + place) high low)
    cases answer with
    | false => exact answeredStill
    | true =>
      have correct := verified _ answeredStill stillIpv4 covers.unvouched
      rw [packetEq] at correct is
      rw [changed] at is
      exact absurd (changed ▸ coversStill.correct correct)
        (not_correct_of_altered (covers.correct checked) was is altered)

def sampleFrame : Bytes :=
  [0, 0, 0, 0, 0, 0, 0, 0, 0, 0, 0, 0, 8, 0, 69, 0, 0, 43, 0, 0,
    64, 0, 64, 6, 38, 203, 10, 0, 0, 1, 10, 0, 0, 2, 156, 64, 35, 40, 0, 0,
    0, 0, 0, 0, 0, 0, 80, 24, 0, 0, 2, 249, 0, 0, 109, 101, 108, 0, 0, 0]

/-- The sample frame is let through unvouched, its checksums are correct, and with its last byte
changed it is refused. -/
theorem receive_checksum_admission_sample :
    RxChecksumPolicy.admits ⟨.dpdk, true, true⟩ 0 sampleFrame = some true ∧
      ChecksumCorrect (headerRegion (packetOf sampleFrame)) ∧
      ChecksumCorrect (tcpRegion (packetOf sampleFrame)) ∧
      RxChecksumPolicy.admits ⟨.dpdk, true, true⟩ 0 (setWord sampleFrame 56 109 0)
        = some false := by
  have accepted : RxChecksumPolicy.admits ⟨.dpdk, true, true⟩ 0 sampleFrame = some true := by
    decide +kernel
  have ipv4 : IsIpv4 sampleFrame := by constructor <;> decide
  have tcp : IsTcp (packetOf sampleFrame) := by constructor <;> decide
  obtain ⟨-, sound, -, refused⟩ := @receive_checksum_admission true true ⟨.dpdk, true, true⟩ rfl 0
    sampleFrame
  obtain ⟨-, header, segment⟩ := sound accepted ipv4
  exact ⟨accepted, header (by decide), segment (by decide) tcp,
    refused tcpRegion 42 17 109 0 (256 * 108) (256 * 109) accepted ipv4
      (@RxChecksumPolicy.Covers.segment _ _ _ 11 (by decide) tcp (by decide)) (by decide +kernel)
      (by decide +kernel) (by decide)⟩

end Melin.Dpdk
