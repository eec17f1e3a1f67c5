import Embassies.Network.Packet

/-!
# Which packets the decoder can cope with

The decoder has to end on every buffer, read inside of it, fail no assertion,
and report lengths that lie inside the buffer when it accepts a packet.  It
takes the lengths of IPv4 and plain IPv6 packets as they are, asserts that the
protocol is not zero, reads an extension header before it knows that there is
one, and asserts that the last option of a header ends with the header.

This module says exactly which buffers it copes with.  For the chain of
extension headers that is told by the bytes of the headers and of their options,
at positions that are numbers modulo `2 ^ 32`.
-/

namespace Embassies.Network

open Library Library.Checked

/-! ## Reads -/

variable {packet : List UInt8} {info : IPInfo} {offset size : Nat}

theorem byteAt_eq_ok_iff {byte : UInt8} :
    byteAt packet offset = .ok byte ↔ packet[offset]? = some byte := by
  rw [byteAt]
  cases packet[offset]? <;> simp

theorem byteAt_eq_ok_of_lt (inside : offset < packet.length) :
    byteAt packet offset = .ok packet[offset] :=
  byteAt_eq_ok_iff.mpr (List.getElem?_eq_getElem inside)

theorem bytesAt_eq_ok (fits : offset + size ≤ packet.length) :
    ∃ field : Bytes size, bytesAt packet offset size = .ok field ∧
      field.bytes = (packet.drop offset).take size := by
  rw [bytesAt, dif_pos fits]
  exact ⟨_, rfl, rfl⟩

/-- The number in a field. -/
def fieldAt (packet : List UInt8) (offset size : Nat) : Nat :=
  BigEndian.decode ((packet.drop offset).take size)

theorem fieldAt_lt_short (packet : List UInt8) (offset : Nat) :
    fieldAt packet offset 2 < 2 ^ 16 := by
  refine (BigEndian.decode_lt _).trans_le ?_
  rw [show (2 : Nat) ^ 16 = 256 ^ 2 from rfl]
  exact Nat.pow_le_pow_right (by decide) (by simp)

theorem numberAt_eq_ok (fits : offset + size ≤ packet.length) :
    numberAt packet offset size = .ok (fieldAt packet offset size) := by
  obtain ⟨field, read, bytes⟩ := bytesAt_eq_ok fits
  rw [numberAt, read, ok_bind, bytes]
  rfl

/-! ## What the bytes of a header say -/

/-- The two bytes before an option: its type and its size. -/
structure OptionAt (packet : List UInt8) (header place : Nat) (type size : UInt8) : Prop where
  room : add32 header (place + 2) ≤ packet.length
  type_eq : packet[add32 header place]? = some type
  size_eq : packet[add32 header place + 1]? = some size

/-- An option that has bytes and lies in the packet.  Only one option may carry a jumbo
length, in four bytes. -/
structure OptionFits (packet : List UInt8) (header place : Nat) (jumbo : Option Nat)
    (type size : UInt8) : Prop extends OptionAt packet header place type size where
  inside : add32 header (place + 2 + size.toNat) ≤ packet.length
  nonempty : size ≠ 0
  jumbogram : type = ip6OptionTypeJumbogram →
    size = 4 ∧ jumbo = none ∧ add32 header place + 6 ≤ packet.length

/-- The jumbo length that is known behind an option. -/
def jumboBehind (packet : List UInt8) (header place : Nat) (type : UInt8) (jumbo : Option Nat) :
    Option Nat :=
  if type = ip6OptionTypeJumbogram then some (fieldAt packet (add32 header place + 2) 4)
  else jumbo

/-- The options of a header of `length` bytes, from a place on, end with the header, and the
jumbo length is known that is known then, or one of them is refused. -/
inductive OptionsEnd (packet : List UInt8) (header length : Nat) :
    Nat → Option Nat → Option (Option Nat) → Prop where
  | short {place : Nat} {jumbo : Option Nat}
      (noRoom : packet.length < add32 header (place + 2) ∨ length < place + 2) :
      OptionsEnd packet header length place jumbo none
  | refused {place : Nat} {jumbo : Option Nat} {type size : UInt8}
      (option : OptionAt packet header place type size) (inHeader : place + 2 ≤ length)
      (bad : size = 0 ∨ packet.length < add32 header (place + 2 + size.toNat) ∨
        length < place + size.toNat ∨
        type = ip6OptionTypeJumbogram ∧ (size ≠ 4 ∨ jumbo ≠ none)) :
      OptionsEnd packet header length place jumbo none
  | last {place : Nat} {jumbo : Option Nat} {type size : UInt8}
      (fits : OptionFits packet header place jumbo type size)
      (ends : place + 2 + size.toNat = length) :
      OptionsEnd packet header length place jumbo
        (some (jumboBehind packet header place type jumbo))
  | next {place : Nat} {jumbo : Option Nat} {type size : UInt8} {result : Option (Option Nat)}
      (fits : OptionFits packet header place jumbo type size)
      (more : place + 2 + size.toNat < length)
      (rest : OptionsEnd packet header length (place + 2 + size.toNat)
        (jumboBehind packet header place type jumbo) result) :
      OptionsEnd packet header length place jumbo result

/-- The headers from `header` on, the first of which has its type at `typeOffset`, are
refused, or lead to a payload that has its jumbo length inside the packet. -/
inductive ChainFits (packet : List UInt8) : Nat → Nat → Option Nat → Prop where
  | payload {typeOffset header : Nat} {jumbo : Option Nat} {type : UInt8}
      (read : packet[typeOffset]? = some type) (other : type ≠ ipProtoOptionHeader)
      (fits : ∀ length, jumbo = some length →
        0 < length ∧ 0 < header ∧ header + length ≤ packet.length) :
      ChainFits packet typeOffset header jumbo
  | long {typeOffset header : Nat} {jumbo : Option Nat} {headerLen : UInt8}
      (read : packet[typeOffset]? = some ipProtoOptionHeader)
      (lengthRead : packet[header + 1]? = some headerLen)
      (long : packet.length < add32 header ((headerLen.toNat + 1) * 8)) :
      ChainFits packet typeOffset header jumbo
  | refused {typeOffset header : Nat} {jumbo : Option Nat} {headerLen : UInt8}
      (read : packet[typeOffset]? = some ipProtoOptionHeader)
      (lengthRead : packet[header + 1]? = some headerLen)
      (inside : add32 header ((headerLen.toNat + 1) * 8) ≤ packet.length)
      (options : OptionsEnd packet header ((headerLen.toNat + 1) * 8) 2 jumbo none) :
      ChainFits packet typeOffset header jumbo
  | next {typeOffset header : Nat} {jumbo after : Option Nat} {headerLen : UInt8}
      (read : packet[typeOffset]? = some ipProtoOptionHeader)
      (lengthRead : packet[header + 1]? = some headerLen)
      (inside : add32 header ((headerLen.toNat + 1) * 8) ≤ packet.length)
      (options : OptionsEnd packet header ((headerLen.toNat + 1) * 8) 2 jumbo (some after))
      (rest : ChainFits packet header (add32 header ((headerLen.toNat + 1) * 8)) after) :
      ChainFits packet typeOffset header jumbo

/-! ## Options -/

/-- The record for two addresses when a jumbo length is known. -/
def jumboInfo (addrs : Bytes 16 × Bytes 16) : Option Nat → IPInfo
  | none => ip6Info addrs.1 addrs.2
  | some length =>
    { ip6Info addrs.1 addrs.2 with foundJumboLength := true, payloadLength := length }

/-- The record says why the packet is refused. -/
def Refused (info : IPInfo) : Prop :=
  info.failure ≠ none ∧ info.packetValid = false

section Scan

variable {header length place : Nat} {jumbo : Option Nat} {type size : UInt8}
  {addrs : Bytes 16 × Bytes 16}

theorem jumboInfo_status (jumbo : Option Nat) : (jumboInfo addrs jumbo).failure = none ∧
      (jumboInfo addrs jumbo).packetValid = false ∧
      (jumboInfo addrs jumbo).foundJumboLength = jumbo.isSome := by
  cases jumbo with
  | none => exact ⟨rfl, rfl, rfl⟩
  | some length => exact ⟨rfl, rfl, rfl⟩

theorem refused_fail (jumbo : Option Nat) (reason : String) :
    Refused ((jumboInfo addrs jumbo).fail reason) :=
  ⟨fun none => (by cases none), (jumboInfo_status jumbo).2.1⟩

theorem optionHeaderFailure_eq_none_iff (small : place ≤ 2048) :
    optionHeaderFailure packet header length (add32 header place) = none ↔
      add32 header (place + 2) ≤ packet.length ∧ place + 2 ≤ length := by
  rw [optionHeaderFailure, add32_add32, sub32_add32 (by omega)]
  split
  · simp only [reduceCtorEq, false_iff]
    omega
  · split
    · simp only [reduceCtorEq, false_iff]
      omega
    · simp only [true_iff]
      omega

theorem optionFailure_eq_none_iff (small : place ≤ 2048) :
    optionFailure packet header length (add32 header place) (jumboInfo addrs jumbo)
        type size = none ↔
      add32 header (place + 2 + size.toNat) ≤ packet.length ∧ place + size.toNat ≤ length ∧
        (type = ip6OptionTypeJumbogram → size = 4 ∧ jumbo = none) := by
  have bound := size.toNat_lt
  simp only [optionFailure, add32_add32, (jumboInfo_status jumbo).2.2]
  rw [sub32_add32 (by omega)]
  by_cases inPacket : packet.length < add32 header (place + 2 + size.toNat)
  · simp [inPacket, Nat.not_le.mpr inPacket]
  · by_cases inHeader : length < place + size.toNat
    · simp [inPacket, inHeader, Nat.not_le.mpr inHeader]
    · cases jumbo with
      | none => simp [inPacket, inHeader, Nat.not_lt.mp inPacket, Nat.not_lt.mp inHeader]
      | some length =>
        by_cases given : type = ip6OptionTypeJumbogram
        · simp [inPacket, inHeader, given, ite_eq_iff]
        · simp [inPacket, inHeader, given, Nat.not_lt.mp inPacket, Nat.not_lt.mp inHeader]

theorem readJumbo_eq_ok_iff {info : IPInfo} (first : type = ip6OptionTypeJumbogram → jumbo = none) :
    readJumbo packet (add32 header place) type (jumboInfo addrs jumbo) = .ok info ↔
      (type = ip6OptionTypeJumbogram → add32 header place + 6 ≤ packet.length) ∧
        info = jumboInfo addrs (jumboBehind packet header place type jumbo) := by
  rw [readJumbo, jumboBehind]
  by_cases jumbogram : type = ip6OptionTypeJumbogram
  · rw [if_pos jumbogram, if_pos jumbogram, first jumbogram]
    by_cases fits : add32 header place + 6 ≤ packet.length
    · rw [numberAt_eq_ok (by omega), ok_bind, pure_eq_ok, Except.ok.injEq]
      exact ⟨fun same => ⟨fun _ => fits, same.symm⟩, fun both => both.2.symm⟩
    · rw [numberAt, bytesAt, dif_neg (by omega), error_bind, error_bind]
      exact ⟨fun halted => (by cases halted), fun both => absurd (both.1 jumbogram) fits⟩
  · rw [if_neg jumbogram, if_neg jumbogram, pure_eq_ok, Except.ok.injEq]
    exact ⟨fun same => ⟨fun given => absurd given jumbogram, same.symm⟩, fun both => both.2.symm⟩

/-- What a round does with an option that is there. -/
theorem scanOption_option (small : place ≤ 2048) (inHeader : place + 2 ≤ length)
    (option : OptionAt packet header place type size) :
    scanOption packet header length (add32 header place, jumboInfo addrs jumbo) =
      match optionFailure packet header length (add32 header place)
          (jumboInfo addrs jumbo) type size with
      | some reason => .ok (.inr (false, (jumboInfo addrs jumbo).fail reason))
      | none =>
        readJumbo packet (add32 header place) type (jumboInfo addrs jumbo) >>=
          finishOption length (add32 header (place + 2 + size.toNat)) (place + 2 + size.toNat)
            size := by
  have bound := size.toNat_lt
  rw [scanOption, (optionHeaderFailure_eq_none_iff small).mpr ⟨option.room, inHeader⟩]
  dsimp only
  rewrite [byteAt_eq_ok_iff.mpr option.type_eq, ok_bind, byteAt_eq_ok_iff.mpr option.size_eq,
    ok_bind, add32_add32, add32_add32, ← Nat.add_assoc, sub32_add32 (by omega)]
  rfl

theorem scanOption_fits (small : place ≤ 2048)
    (fits : OptionFits packet header place jumbo type size)
    (inHeader : place + 2 + size.toNat ≤ length) :
    scanOption packet header length (add32 header place, jumboInfo addrs jumbo) =
      finishOption length (add32 header (place + 2 + size.toNat)) (place + 2 + size.toNat) size
        (jumboInfo addrs (jumboBehind packet header place type jumbo)) := by
  have passes := (@optionFailure_eq_none_iff packet header length place jumbo type size addrs
    small).mpr ⟨fits.inside, by omega, fun given =>
      ⟨(fits.jumbogram given).1, (fits.jumbogram given).2.1⟩⟩
  have read := (@readJumbo_eq_ok_iff packet header place jumbo type addrs _
    fun given => (fits.jumbogram given).2.1).mpr ⟨fun given => (fits.jumbogram given).2.2, rfl⟩
  rw [scanOption_option small (by omega) fits.toOptionAt, passes, read, ok_bind]

/-- A round that ends does what the bytes of the option say. -/
theorem scanOption_cases (small : place ≤ 2048) {outcome : (Nat × IPInfo) ⊕ (Bool × IPInfo)}
    (ran : scanOption packet header length
      (add32 header place, jumboInfo addrs jumbo) = .ok outcome) :
    (∃ info, outcome = .inr (false, info) ∧ Refused info ∧
        OptionsEnd packet header length place jumbo none) ∨
      (∃ after, outcome = .inr (true, jumboInfo addrs after) ∧
        OptionsEnd packet header length place jumbo (some after)) ∨
      ∃ next after, outcome = .inl (add32 header next, jumboInfo addrs after) ∧
        next < length ∧ ∀ result, OptionsEnd packet header length next after result →
          OptionsEnd packet header length place jumbo result := by
  by_cases room : add32 header (place + 2) ≤ packet.length ∧ place + 2 ≤ length
  · have header_eq := ran
    rw [scanOption, (optionHeaderFailure_eq_none_iff small).mpr room] at header_eq
    obtain ⟨type, typeRead, rest⟩ := of_bind header_eq
    obtain ⟨size, sizeRead, -⟩ := of_bind rest
    have option : OptionAt packet header place type size :=
      ⟨room.1, byteAt_eq_ok_iff.mp typeRead, byteAt_eq_ok_iff.mp sizeRead⟩
    rw [scanOption_option small room.2 option] at ran
    have accepted := @optionFailure_eq_none_iff packet header length place jumbo type size
      addrs small
    cases passes : optionFailure packet header length (add32 header place)
      (jumboInfo addrs jumbo) type size with
    | some reason =>
      rw [passes] at ran accepted
      cases ran
      refine .inl ⟨_, rfl, refused_fail jumbo reason, .refused option room.2 ?_⟩
      by_contra good
      simp only [not_or, not_lt, not_and, not_not] at good
      exact absurd (accepted.mpr ⟨good.2.1, good.2.2.1, good.2.2.2⟩) (by simp)
    | none =>
      rw [passes] at ran
      obtain ⟨inside, -, first⟩ := accepted.mp passes
      obtain ⟨info, read, finished⟩ := of_bind ran
      obtain ⟨jumboInside, rfl⟩ := (readJumbo_eq_ok_iff fun given => (first given).2).mp read
      rw [finishOption] at finished
      split at finished
      · rename_i zero
        cases finished
        exact .inl ⟨_, rfl, refused_fail _ _, .refused option room.2 (.inl zero)⟩
      · rename_i nonempty
        have fits : OptionFits packet header place jumbo type size :=
          ⟨option, inside, nonempty, fun given =>
            ⟨(first given).1, (first given).2, jumboInside given⟩⟩
        split at finished
        · rename_i ends
          cases finished
          exact .inr (.inl ⟨_, rfl, .last fits ends⟩)
        · split at finished
          · cases finished
          · cases finished
            have more : place + 2 + size.toNat < length := by omega
            exact .inr (.inr ⟨_, _, rfl, more, fun _ rest => .next fits more rest⟩)
  · have noRoom : packet.length < add32 header (place + 2) ∨ length < place + 2 := by omega
    rw [scanOption] at ran
    cases failed : optionHeaderFailure packet header length (add32 header place) with
    | none => exact absurd ((optionHeaderFailure_eq_none_iff small).mp failed) room
    | some reason =>
      rw [failed] at ran
      cases ran
      exact .inl ⟨_, rfl, refused_fail jumbo reason, .short noRoom⟩

/-- What the scan of the options returns. -/
def Answers (addrs : Bytes 16 × Bytes 16) (outcome : Bool × IPInfo) :
    Option (Option Nat) → Prop
  | none => outcome.1 = false ∧ Refused outcome.2
  | some after => outcome = (true, jumboInfo addrs after)

theorem optionsEnd_of_run {fuel : Nat} {outcome : Bool × IPInfo} (small : length ≤ 2048)
    (inside : place ≤ 2048)
    (ran : Loop.run Trap.outOfFuel (scanOption packet header length) fuel
      (add32 header place, jumboInfo addrs jumbo) = .ok outcome) :
    ∃ result, OptionsEnd packet header length place jumbo result ∧
      Answers addrs outcome result := by
  induction fuel generalizing place jumbo with
  | zero => cases ran
  | succ fuel induction =>
    rcases Loop.run_succ_eq_ok_iff.mp ran with leaves | ⟨later, goes, rest⟩
    · rcases scanOption_cases inside leaves with
        ⟨info, same, refused, ends⟩ | ⟨after, same, ends⟩ | ⟨next, after, same, -⟩
      · cases same
        exact ⟨none, ends, rfl, refused⟩
      · cases same
        exact ⟨some after, ends, rfl⟩
      · cases same
    · rcases scanOption_cases inside goes with
        ⟨info, same, -⟩ | ⟨after, same, -⟩ | ⟨next, after, same, more, extend⟩
      · cases same
      · cases same
      · cases same
        obtain ⟨result, ends, answers⟩ := induction (by omega) rest
        exact ⟨result, extend result ends, answers⟩

theorem OptionsEnd.run {result : Option (Option Nat)} (small : length ≤ 2048)
    (ends : OptionsEnd packet header length place jumbo result) {fuel : Nat}
    (inside : place ≤ length) (enough : length - place < fuel) :
    ∃ outcome, Loop.run Trap.outOfFuel (scanOption packet header length) fuel
        (add32 header place, jumboInfo addrs jumbo) = .ok outcome ∧
      Answers addrs outcome result := by
  obtain ⟨fuel, rfl⟩ : ∃ less, fuel = less + 1 := ⟨fuel - 1, by omega⟩
  induction ends generalizing fuel with
  | @short place jumbo noRoom =>
    cases failed : optionHeaderFailure packet header length (add32 header place) with
    | none =>
      have room := (optionHeaderFailure_eq_none_iff (by omega)).mp failed
      omega
    | some reason =>
      refine ⟨(false, (jumboInfo addrs jumbo).fail reason), Loop.run_leave ?_, rfl,
        refused_fail jumbo reason⟩
      rw [scanOption, failed]
  | @refused place jumbo type size option inHeader bad =>
    have rounds := @scanOption_option packet header length place jumbo type size addrs
      (by omega) inHeader option
    have accepted := @optionFailure_eq_none_iff packet header length place jumbo type size
      addrs (by omega)
    cases passes : optionFailure packet header length (add32 header place)
      (jumboInfo addrs jumbo) type size with
    | some reason =>
      rw [passes] at rounds
      exact ⟨_, Loop.run_leave rounds, rfl, refused_fail jumbo reason⟩
    | none =>
      obtain ⟨inPacket, inHeader, first⟩ := accepted.mp passes
      -- only an option without bytes is refused after the checks
      have zero : size = 0 := by
        rcases bad with zero | long | long | ⟨given, wrong⟩
        · exact zero
        · omega
        · omega
        · rcases wrong with wrong | wrong
          · exact absurd (first given).1 wrong
          · exact absurd (first given).2 wrong
      have plain : type ≠ ip6OptionTypeJumbogram := by
        intro given
        have four := (first given).1
        rw [zero] at four
        cases four
      have read := (@readJumbo_eq_ok_iff packet header place jumbo type addrs _
        fun given => absurd given plain).mpr ⟨fun given => absurd given plain, rfl⟩
      rw [passes, read, ok_bind, finishOption, if_pos zero] at rounds
      exact ⟨_, Loop.run_leave rounds, rfl, refused_fail _ _⟩
  | last fits ends =>
    have rounds := @scanOption_fits _ _ length _ _ _ _ addrs (by omega) fits (by omega)
    rw [finishOption, if_neg fits.nonempty, if_pos ends] at rounds
    exact ⟨_, Loop.run_leave rounds, rfl⟩
  | next fits more rest induction =>
    have rounds := @scanOption_fits _ _ length _ _ _ _ addrs (by omega) fits (by omega)
    rw [finishOption, if_neg fits.nonempty, if_neg (by omega), if_neg (by omega)] at rounds
    rw [Loop.run_next rounds]
    obtain ⟨less, rfl⟩ : ∃ less, fuel = less + 1 := ⟨fuel - 1, by omega⟩
    exact induction (by omega) less (by omega)

end Scan

/-! ## The result -/

/-- What is asked of the decoded record. -/
def Consistent (packet : List UInt8) (info : IPInfo) : Prop :=
  (info.packetValid = true →
    info.payloadOffset + info.payloadLength = info.packetLength ∧
      info.packetLength ≤ packet.length ∧ 0 < info.payloadLength) ∧
    (info.packetValid = false → info.failure ≠ none)

/-- The decoder ends, fails no assertion, reads only inside of the buffer and
reports a consistent record. -/
def Robust (packet : List UInt8) : Prop :=
  ∃ fuel info, decodeIpPacket fuel packet = .ok info ∧ Consistent packet info

/-- A record passes the assertions and is consistent. -/
def Passes (packet : List UInt8) (info : IPInfo) : Prop :=
  ∃ final, checkInfo info = .ok final ∧ Consistent packet final

theorem passes_of_failed (failed : info.failure ≠ none)
    (invalid : info.packetValid = false) : Passes packet info := by
  refine ⟨info, ?_, ?_⟩
  · rw [checkInfo, if_neg (by rw [invalid]; decide), ensure_true failed]
    rfl
  · exact ⟨fun valid => (by rw [invalid] at valid; cases valid), fun _ => failed⟩

theorem passes_valid_iff (unfailed : info.failure = none) (valid : info.packetValid = true) :
    Passes packet info ↔ 0 < info.payloadLength ∧ info.layer4Protocol ≠ 0 ∧ 0 < info.payloadOffset ∧
        info.payloadOffset + info.payloadLength = info.packetLength ∧
        info.packetLength ≤ packet.length := by
  rw [Passes, checkInfo, if_pos valid]
  simp only [bind_eq_ok_iff, ensure_eq_ok_iff, pure_eq_ok, Except.ok.injEq]
  constructor
  · rintro ⟨final, ⟨_, -, _, long, _, protocol, _, behind, rfl⟩, consistent⟩
    obtain ⟨total, inside, -⟩ := consistent.1 valid
    exact ⟨long, protocol, behind, total, inside⟩
  · rintro ⟨long, protocol, behind, total, inside⟩
    refine ⟨info, ⟨⟨⟩, unfailed, ⟨⟩, long, ⟨⟩, protocol, ⟨⟩, behind, rfl⟩, ?_, ?_⟩
    · exact fun _ => ⟨total, inside, long⟩
    · intro invalid
      rw [valid] at invalid
      cases invalid

/-! ## Extension headers -/

section Headers

variable {state : HeaderState} (small : packet.length < 2 ^ 32)

include small

theorem header_present {headerType : UInt8}
    (read : packet[state.headerTypeOffset]? = some headerType) :
    ¬packet.length < add32 state.headerTypeOffset 1 := by
  have inside := (List.getElem?_eq_some_iff.mp read).1
  unfold add32
  omega

theorem scanExtHeader_payload {headerType : UInt8}
    (read : packet[state.headerTypeOffset]? = some headerType)
    (other : headerType ≠ ipProtoOptionHeader) :
    scanExtHeader packet state =
      .ok (.inr (finishHeaders state.headerOffset headerType state.info)) := by
  rw [scanExtHeader, if_neg (header_present small read), byteAt_eq_ok_iff.mpr read, ok_bind,
    if_pos other]

theorem scanExtHeader_extension
    (read : packet[state.headerTypeOffset]? = some ipProtoOptionHeader) :
    scanExtHeader packet state = (do
      let headerLen ← byteAt packet (state.headerOffset + 1)
      if packet.length <
          add32 state.headerOffset ((headerLen.toNat + 1) * 8) then
        .ok (.inr (state.info.fail "packet too short to contain claimed option header length"))
      else do
        let (foundInOptions, info) ← scanOptions packet state.headerOffset
          (add32 state.headerOffset 2) ((headerLen.toNat + 1) * 8) state.info
        if foundInOptions then
          .ok (.inl ⟨state.headerOffset,
            add32 state.headerOffset ((headerLen.toNat + 1) * 8), info⟩)
        else
          .ok (.inr info)) := by
  rw [scanExtHeader, if_neg (header_present small read), byteAt_eq_ok_iff.mpr read, ok_bind,
    if_neg (not_not.mpr rfl)]

variable {typeOffset header : Nat} {jumbo : Option Nat} {addrs : Bytes 16 × Bytes 16}

/-- The record at the end of the chain passes exactly when the payload is there
or no length has been found. -/
theorem payload_passes_iff {type : UInt8} (other : type ≠ ipProtoOptionHeader) :
    Passes packet (finishHeaders header type (jumboInfo addrs jumbo)).setPacketLength ↔
      ∀ length, jumbo = some length →
        0 < length ∧ 0 < header ∧ header + length ≤ packet.length := by
  cases jumbo with
  | none =>
    refine ⟨fun _ _ found => (by cases found), fun _ => ?_⟩
    exact passes_of_failed (by simp [finishHeaders, jumboInfo, ip6Info, IPInfo.cleared,
      IPInfo.fail, IPInfo.setPacketLength]) rfl
  | some length =>
    refine (passes_valid_iff rfl rfl).trans ?_
    simp only [finishHeaders, jumboInfo, IPInfo.setPacketLength, add32, Option.some.injEq,
      forall_eq', if_true]
    constructor
    · rintro ⟨long, -, behind, total, inside⟩
      exact ⟨long, behind, by omega⟩
    · rintro ⟨long, behind, inside⟩
      exact ⟨long, other, behind, by omega, by omega⟩

theorem chainFits_of_run {fuel : Nat} (inside : typeOffset < packet.length)
    (ran : Loop.run Trap.outOfFuel (scanExtHeader packet) fuel
      ⟨typeOffset, header, jumboInfo addrs jumbo⟩ = .ok info)
    (passes : Passes packet info.setPacketLength) :
    ChainFits packet typeOffset header jumbo := by
  induction fuel generalizing typeOffset header jumbo with
  | zero => cases ran
  | succ fuel induction =>
    obtain ⟨type, read⟩ : ∃ type, packet[typeOffset]? = some type :=
      ⟨_, List.getElem?_eq_getElem inside⟩
    by_cases extension : type = ipProtoOptionHeader
    · subst extension
      have rounds := @scanExtHeader_extension packet
        ⟨typeOffset, header, jumboInfo addrs jumbo⟩ small read
      simp only [Loop.run_succ_eq_ok_iff, Loop.Next, rounds] at ran
      cases lengthRead : packet[header + 1]? with
      | none => simp [byteAt, lengthRead] at ran
      | some headerLen =>
        simp only [byteAt_eq_ok_iff.mpr lengthRead, ok_bind] at ran
        by_cases long : packet.length < add32 header ((headerLen.toNat + 1) * 8)
        · exact .long read lengthRead long
        · have bounded := headerLen.toNat_lt
          have fits := Nat.not_lt.mp long
          have next := (List.getElem?_eq_some_iff.mp lengthRead).1
          simp only [if_neg long, bind_eq_ok_iff] at ran
          obtain ⟨⟨found, after⟩, scanned, same⟩ | ⟨later, ⟨⟨found, after⟩, scanned, same⟩, rest⟩ :=
            ran
          · obtain ⟨result, ends, answers⟩ := optionsEnd_of_run (by omega) (by omega) scanned
            cases result with
            | none => exact .refused read lengthRead fits ends
            | some known =>
              cases answers
              cases same
          · obtain ⟨result, ends, answers⟩ := optionsEnd_of_run (by omega) (by omega) scanned
            cases result with
            | none =>
              obtain ⟨refused, -⟩ := answers
              rw [refused] at same
              cases same
            | some known =>
              cases answers
              cases same
              exact .next read lengthRead fits ends (induction (by omega) rest)
    · rw [Loop.run_leave (scanExtHeader_payload small read extension)] at ran
      cases ran
      exact .payload read extension ((payload_passes_iff small extension).mp passes)

theorem ChainFits.run (fits : ChainFits packet typeOffset header jumbo) :
    ∃ fuel info, Loop.run Trap.outOfFuel (scanExtHeader packet) fuel
        ⟨typeOffset, header, jumboInfo addrs jumbo⟩ = .ok info ∧
      Passes packet info.setPacketLength := by
  have options {header : Nat} {jumbo : Option Nat} {headerLen : UInt8}
      {result : Option (Option Nat)}
      (ends : OptionsEnd packet header ((headerLen.toNat + 1) * 8) 2 jumbo result) :
      ∃ outcome, scanOptions packet header (add32 header 2) ((headerLen.toNat + 1) * 8)
          (jumboInfo addrs jumbo) = .ok outcome ∧
        Answers addrs outcome result := by
    have bounded := headerLen.toNat_lt
    exact ends.run (by omega) (by omega) (by omega)
  induction fits with
  | payload read other fits =>
    exact ⟨1, _, Loop.run_leave (scanExtHeader_payload small read other),
      (payload_passes_iff small other).mpr fits⟩
  | @long typeOffset header jumbo headerLen read lengthRead long =>
    have rounds := @scanExtHeader_extension packet
      ⟨typeOffset, header, jumboInfo addrs jumbo⟩ small read
    rw [byteAt_eq_ok_iff.mpr lengthRead, ok_bind, if_pos long] at rounds
    obtain ⟨failed, invalid⟩ := @refused_fail addrs jumbo
      "packet too short to contain claimed option header length"
    exact ⟨1, _, Loop.run_leave rounds, passes_of_failed failed invalid⟩
  | @refused typeOffset header jumbo headerLen read lengthRead inside ends =>
    have rounds := @scanExtHeader_extension packet
      ⟨typeOffset, header, jumboInfo addrs jumbo⟩ small read
    obtain ⟨⟨found, info⟩, scanned, stopped, refused⟩ := options ends
    rw [byteAt_eq_ok_iff.mpr lengthRead, ok_bind, if_neg (Nat.not_lt.mpr inside), scanned,
      ok_bind] at rounds
    cases stopped
    exact ⟨1, _, Loop.run_leave rounds, passes_of_failed refused.1 refused.2⟩
  | @next typeOffset header jumbo after headerLen read lengthRead inside ends _ induction =>
    have rounds := @scanExtHeader_extension packet
      ⟨typeOffset, header, jumboInfo addrs jumbo⟩ small read
    obtain ⟨outcome, scanned, rfl⟩ := options ends
    rw [byteAt_eq_ok_iff.mpr lengthRead, ok_bind, if_neg (Nat.not_lt.mpr inside), scanned,
      ok_bind] at rounds
    obtain ⟨fuel, info, ran, passes⟩ := induction
    exact ⟨fuel + 1, info, (Loop.run_next rounds).trans ran, passes⟩

end Headers

/-! ## Which packets are handled -/

/-- An IPv4 packet with a total length between the header and the buffer, and
with a protocol. -/
def Ip4Sound (packet : List UInt8) : Prop :=
  ip4HeaderSize ≤ packet.length →
    ip4HeaderSize < fieldAt packet 2 2 ∧
      fieldAt packet 2 2 ≤ packet.length ∧ packet[9]? ≠ some 0

/-- A plain IPv6 packet that is all there and has a protocol, or a chain of extension
headers that fits. -/
def Ip6Sound (packet : List UInt8) : Prop :=
  ip6HeaderSize ≤ packet.length →
    (0 < fieldAt packet 4 2 →
      ip6HeaderSize + fieldAt packet 4 2 ≤ packet.length ∧
        packet[6]? ≠ some 0) ∧
    (fieldAt packet 4 2 = 0 → ChainFits packet 6 ip6HeaderSize none)

/-- The packets that the decoder copes with. -/
def WellFormed : List UInt8 → Prop
  | [] => True
  | first :: rest =>
    match decodeIpVersion first with
    | .ipv4 => Ip4Sound (first :: rest)
    | .ipv6 => Ip6Sound (first :: rest)
    | .ipvErr => True

theorem decodeIp4Packet_long (long : ip4HeaderSize ≤ packet.length) :
    ∃ info, decodeIp4Packet packet = .ok info ∧ packet[9]? = some info.layer4Protocol ∧
      info.payloadOffset = ip4HeaderSize ∧ info.packetValid = true ∧ info.failure = none ∧
      info.packetLength = fieldAt packet 2 2 ∧
      info.payloadLength = sub32 (fieldAt packet 2 2) ip4HeaderSize := by
  have short : ¬packet.length < ip4HeaderSize := Nat.not_lt.mpr long
  have long : 20 ≤ packet.length := long
  obtain ⟨source, sourceRead, -⟩ := @bytesAt_eq_ok packet 12 4 (by omega)
  obtain ⟨dest, destRead, -⟩ := @bytesAt_eq_ok packet 16 4 (by omega)
  have protocolRead := @byteAt_eq_ok_of_lt packet 9 (by omega)
  have protocol := byteAt_eq_ok_iff.mp protocolRead
  rw [decodeIp4Packet, if_neg short, numberAt_eq_ok (by omega),
    ok_bind, protocolRead, ok_bind, numberAt_eq_ok (by omega), ok_bind,
    numberAt_eq_ok (by omega), ok_bind, sourceRead, ok_bind, destRead, ok_bind]
  exact ⟨_, rfl, protocol, rfl, rfl, rfl, rfl, rfl⟩

theorem decodeIp4_passes_iff :
    (∃ info, decodeIp4Packet packet = .ok info ∧ Passes packet info) ↔ Ip4Sound packet := by
  rw [Ip4Sound]
  by_cases short : packet.length < ip4HeaderSize
  · rw [decodeIp4Packet, if_pos short]
    refine ⟨fun _ long => absurd long (by omega), fun _ => ⟨_, rfl, ?_⟩⟩
    exact passes_of_failed (by simp [IPInfo.fail]) rfl
  · have long := Nat.le_of_not_lt short
    obtain ⟨info, decoded, protocol, offset, valid, unfailed, total, payload⟩ :=
      decodeIp4Packet_long long
    rw [decoded, protocol]
    simp only [Except.ok.injEq, exists_eq_left']
    rw [passes_valid_iff unfailed valid, offset, total, payload]
    have size : ip4HeaderSize = 20 := rfl
    have bounded := fieldAt_lt_short packet 2
    unfold sub32
    constructor
    · rintro ⟨positive, present, -, total, inside⟩ -
      refine ⟨by omega, inside, ?_⟩
      intro zero
      exact present (Option.some.inj zero)
    · intro sound
      obtain ⟨above, inside, present⟩ := sound long
      exact ⟨by omega, fun zero => present (congrArg some zero), by omega,
        by omega, inside⟩

theorem plain_passes_iff {sourceIp6 destIp6 : Bytes 16}
    (long : ip6HeaderSize ≤ packet.length) (plain : 0 < fieldAt packet 4 2) :
    (∃ fuel info, findIp6Payload fuel packet (fieldAt packet 4 2)
        (ip6Info sourceIp6 destIp6) = .ok info ∧ Passes packet info.setPacketLength) ↔
      ip6HeaderSize + fieldAt packet 4 2 ≤ packet.length ∧ packet[6]? ≠ some 0 := by
  have size : ip6HeaderSize = 40 := rfl
  have bounded := fieldAt_lt_short packet 4
  have protocolRead := @byteAt_eq_ok_of_lt packet 6 (by omega)
  rw [byteAt_eq_ok_iff.mp protocolRead]
  simp only [findIp6Payload, if_pos plain, protocolRead, ok_bind, pure_eq_ok,
    Except.ok.injEq, exists_eq_left', exists_const]
  refine (passes_valid_iff rfl rfl).trans ?_
  dsimp only [IPInfo.setPacketLength, add32]
  constructor
  · rintro ⟨-, present, -, total, inside⟩
    refine ⟨by omega, ?_⟩
    intro zero
    exact present (Option.some.inj zero)
  · rintro ⟨inside, present⟩
    exact ⟨plain, fun zero => present (congrArg some zero), by omega, by omega,
      by omega⟩

theorem decodeIp6_passes_iff (small : packet.length < 2 ^ 32) :
    (∃ fuel info, decodeIp6Packet fuel packet = .ok info ∧
        Passes packet info) ↔ Ip6Sound packet := by
  have size : ip6HeaderSize = 40 := rfl
  by_cases short : packet.length < ip6HeaderSize
  · have failed : decodeIp6Packet 0 packet = .ok (IPInfo.cleared.fail
        "packet smaller than basic IPv6 header") := if_pos short
    exact ⟨fun _ long => absurd long (by omega), fun _ => ⟨0, _, failed,
      passes_of_failed (by simp [IPInfo.fail]) rfl⟩⟩
  · have long : ip6HeaderSize ≤ packet.length := Nat.le_of_not_lt short
    obtain ⟨source, sourceRead, -⟩ := @bytesAt_eq_ok packet 8 16 (by omega)
    obtain ⟨dest, destRead, -⟩ := @bytesAt_eq_ok packet 24 16 (by omega)
    have opened : (∃ fuel info, decodeIp6Packet fuel packet = .ok info ∧ Passes packet info) ↔
          ∃ fuel info, findIp6Payload fuel packet (fieldAt packet 4 2)
            (ip6Info source dest) = .ok info ∧ Passes packet info.setPacketLength := by
      simp only [decodeIp6Packet, if_neg short, sourceRead, destRead, ok_bind,
        @numberAt_eq_ok packet 4 2 (by omega), bind_eq_ok_iff, pure_eq_ok,
        Except.ok.injEq]
      constructor
      · rintro ⟨fuel, _, ⟨info, found, rfl⟩, passes⟩
        exact ⟨fuel, info, found, passes⟩
      · rintro ⟨fuel, info, found, passes⟩
        exact ⟨fuel, _, ⟨info, found, rfl⟩, passes⟩
    rw [opened]
    by_cases plain : 0 < fieldAt packet 4 2
    · rw [plain_passes_iff long plain]
      constructor
      · exact fun sound _ => ⟨fun _ => sound, fun none => absurd none (by omega)⟩
      · exact fun sound => (sound long).1 plain
    · simp only [findIp6Payload, if_neg plain]
      constructor
      · rintro ⟨fuel, info, ran, passes⟩ -
        exact ⟨fun positive => absurd positive plain, fun _ =>
          @chainFits_of_run _ _ small _ _ none (source, dest) fuel (by omega) ran passes⟩
      · intro sound
        exact @ChainFits.run _ small _ _ none (source, dest) ((sound long).2 (by omega))

/-- The decoder copes with a buffer exactly when the packet in it is well
formed. -/
theorem robust_iff_wellFormed (packet : List UInt8) (small : packet.length < 2 ^ 32) :
    Robust packet ↔ WellFormed packet := by
  have split : Robust packet ↔ ∃ fuel info,
      decodeVersion fuel packet = .ok info ∧ Passes packet info := by
    simp only [Robust, decodeIpPacket, bind_eq_ok_iff, Passes]
    constructor
    · rintro ⟨fuel, final, ⟨info, decoded, checked⟩, consistent⟩
      exact ⟨fuel, info, decoded, final, checked, consistent⟩
    · rintro ⟨fuel, info, decoded, final, checked, consistent⟩
      exact ⟨fuel, final, ⟨info, decoded, checked⟩, consistent⟩
  rw [split]
  cases packet with
  | nil =>
    exact ⟨fun _ => trivial, fun _ => ⟨0, _, rfl, passes_of_failed (by simp [IPInfo.fail]) rfl⟩⟩
  | cons first rest =>
    simp only [WellFormed, decodeVersion]
    cases decodeIpVersion first with
    | ipv4 => simpa only [exists_const] using decodeIp4_passes_iff
    | ipv6 => exact decodeIp6_passes_iff small
    | ipvErr =>
      exact ⟨fun _ => trivial, fun _ => ⟨0, _, rfl, passes_of_failed (by simp [IPInfo.fail]) rfl⟩⟩

/-- A jumbogram of one byte. -/
def jumbogram : List UInt8 :=
  [0x60, 0, 0, 0, 0, 0, 0, 64] ++ List.replicate 32 1 ++ [17, 0, 0xc2, 4, 0, 0, 0, 1, 9]

theorem robust_iff_wellFormed_jumbogram : Robust jumbogram := by
  refine (robust_iff_wellFormed _ (by decide)).mpr fun _ => ⟨by decide, fun _ => ?_⟩
  have option : OptionFits jumbogram ip6HeaderSize 2 none ip6OptionTypeJumbogram 4 :=
    ⟨⟨by decide, rfl, rfl⟩, by decide, by decide, by decide⟩
  refine @ChainFits.next _ _ _ _ _ 0 rfl rfl (by decide) (.last option rfl)
    (@ChainFits.payload _ _ _ _ 17 rfl (by decide) ?_)
  rintro length ⟨⟩
  decide

/-- A header whose total length is that of the header fails an assertion. -/
theorem header_without_payload_not_robust :
    ¬Robust [0x45, 0, 0, 20, 0, 0, 0, 0, 255, 17, 0, 0, 1, 2, 3, 4, 5, 6, 7, 8] := by
  rintro ⟨fuel, info, decoded, -⟩
  have asserted : (decodeIp4Packet [0x45, 0, 0, 20, 0, 0, 0, 0, 255, 17, 0, 0,
      1, 2, 3, 4, 5, 6, 7, 8] >>= checkInfo) = .error .assertion := by decide
  cases asserted.symm.trans decoded

end Embassies.Network
