import Melin.Transport.Snapshot
import Melin.Journal.CodecLaws

/-! A snapshot is loaded as it was saved. -/

namespace Melin

open Lib

/-- The values a save records fit their fields. -/
structure SnapshotInRange (sequence : Nat) (lineage : Lineage) (genesisEntries : Option Nat) :
    Prop where
  sequence : sequence < 2 ^ 64
  wireSeq : ∀ policy ∈ lineage.ackPolicy, policy.wireSeq < 2 ^ 64
  genesis : ∀ entries ∈ genesisEntries, entries < 2 ^ 64

theorem snapshotFields_length (appVersion : UInt16) (sequence : Nat) (chainHash : Digest)
    (lineage : Lineage) (genesisEntries : Option Nat) (tickWatermark : TickWatermark) :
    (snapshotFields appVersion sequence chainHash lineage genesisEntries
      tickWatermark).flatten.length = headerSizeV5 := by
  simp [snapshotFields, chainHash.width, headerSizeV5, headerSizeV4, headerSizeV3, headerSizeV2,
    headerSizeV1]

theorem getD_of_slice {bytes : Bytes} {place : Nat} {byte : UInt8}
    (field : slice bytes place 1 = [byte]) : bytes.getD place 0 = byte := by
  have found : bytes[place]? = some byte := by
    have first := congrArg (·[0]?) field
    simpa [slice, List.getElem?_take, List.getElem?_drop] using first
  simp [found]

theorem parseLineage_eq {bytes : Bytes} {genesisEntries : Option Nat}
    {ackPolicy : Option LineagePolicy}
    (flags : bytes.getD 64 0 = flagsOf genesisEntries ackPolicy)
    (policy : bytes.getD 65 0 = (ackPolicy.map (·.change.policy.byte)).getD 0)
    (previous : bytes.getD 66 0 = ((ackPolicy.bind (·.previous)).map (·.byte)).getD 0)
    (wireSeq : leNat (slice bytes 67 8) = (ackPolicy.map (·.wireSeq)).getD 0)
    (genesis : leNat (slice bytes 56 8) = genesisEntries.getD 0) :
    parseLineage bytes = .ok (genesisEntries, ackPolicy) := by
  unfold parseLineage
  simp only [flags, policy, previous, wireSeq, genesis]
  -- Each combination of known fields sets its own bits, and every absent field is zero.
  rcases genesisEntries with _ | entries <;>
    rcases ackPolicy with _ | ⟨⟨byte, _ | _⟩, wireSeq, _ | previous⟩ <;>
    simp +decide [flagsOf]

section

variable {A E R : Type} [Application A E R]

/-- The header of a saved snapshot parses to exactly what was recorded, whatever follows it. -/
theorem parse_snapshotFields {sequence : Nat} {lineage : Lineage} {genesisEntries : Option Nat}
    (inRange : SnapshotInRange sequence lineage genesisEntries) (appVersion : UInt16)
    (chainHash : Digest) (tickWatermark : TickWatermark) (payload : Bytes) :
    SnapshotHeader.parse ((snapshotFields appVersion sequence chainHash lineage genesisEntries
        tickWatermark).flatten ++ payload)
      = .ok { appVersion := appVersion.toNat, sequence, chainHash, lineage, genesisEntries,
              tickWatermark := some tickWatermark, len := headerSizeV5 } := by
  have width := snapshotFields_length appVersion sequence chainHash lineage genesisEntries
    tickWatermark
  have field := slice_flatten (snapshotFields appVersion sequence chainHash lineage genesisEntries
    tickWatermark) payload
  generalize bytesEq : (snapshotFields appVersion sequence chainHash lineage genesisEntries
    tickWatermark).flatten ++ payload = bytes at field ⊢
  have long : headerSizeV5 ≤ bytes.length := by
    rw [← bytesEq, List.length_append, width]
    omega
  have chain := chainHash.width
  -- Every field reads back from its place.
  have magic := @field 0 0 4 _ rfl rfl (by simp)
  have version := @field 1 4 2 _ rfl (by simp [snapshotFields]) (by simp)
  have app := @field 2 6 2 _ rfl (by simp [snapshotFields]) (by simp)
  have sequenceField := @field 3 8 8 _ rfl (by simp [snapshotFields]) (by simp)
  have chainField := @field 4 16 32 _ rfl (by simp [snapshotFields]) chain
  have epoch := @field 5 48 8 _ rfl (by simp [snapshotFields, chain]) (by simp)
  have genesis := @field 6 56 8 _ rfl (by simp [snapshotFields, chain]) (by simp)
  have flags := @field 7 64 1 _ rfl (by simp [snapshotFields, chain]) rfl
  have policy := @field 8 65 1 _ rfl (by simp [snapshotFields, chain]) rfl
  have previous := @field 9 66 1 _ rfl (by simp [snapshotFields, chain]) rfl
  have wireSeq := @field 10 67 8 _ rfl (by simp [snapshotFields, chain]) (by simp)
  have watermark := @field 11 headerSizeV4 8 _ rfl
    (by simp [snapshotFields, chain, headerSizeV4, headerSizeV3, headerSizeV2, headerSizeV1])
    (by simp)
  have genesisFits : genesisEntries.getD 0 < 2 ^ 64 := by
    cases genesisEntries with
    | none => decide
    | some entries => exact inRange.genesis entries rfl
  have wireSeqFits : (lineage.ackPolicy.map (·.wireSeq)).getD 0 < 2 ^ 64 := by
    cases known : lineage.ackPolicy with
    | none => decide
    | some policy => exact inRange.wireSeq policy (by rw [known]; rfl)
  have lineageFields : parseLineage bytes = .ok (genesisEntries, lineage.ackPolicy) :=
    parseLineage_eq (getD_of_slice flags) (getD_of_slice policy) (getD_of_slice previous)
      (by rw [wireSeq, leNat_leBytes 8 _ wireSeqFits]) (by rw [genesis, leNat_leBytes 8 _ genesisFits])
  have versionIs : leNat (slice bytes 4 2) = transportVersion := by rw [version]; decide
  have magicIs : leNat (slice bytes 0 4) = snapMagic := by rw [magic]; decide
  have notShort : ¬ bytes.length < headerSizeV1 := by
    have shorter : headerSizeV1 ≤ headerSizeV5 := by decide
    omega
  have known : headerLength transportVersion = some headerSizeV5 := rfl
  rw [SnapshotHeader.parse, if_neg notShort, if_neg (not_not.mpr magicIs), versionIs]
  simp only [known, if_neg (Nat.not_lt.mpr long), or_true, if_true, lineageFields, app, sequenceField,
    readDigest_eq chainField, epoch, watermark]
  rw [leNat_leBytes 2 _ appVersion.toNat_lt, leNat_leBytes 8 _ inRange.sequence,
    leNat_leBytes 8 _ lineage.epoch.toNat_lt, leNat_leBytes 8 _ tickWatermark.nanos.toNat_lt]
  simp [bind, Except.bind, pure, Except.pure, transportVersion]

variable [Hashing]

/-- What a save wrote, a load reads back: the state, and a header with every recorded value. -/
theorem load_save [LawfulApplication A] {app : A} {sequence : Nat} {chainHash : Digest}
    {lineage : Lineage} {genesisEntries : Option Nat} {tickWatermark : TickWatermark} {file : Bytes}
    (inRange : SnapshotInRange sequence lineage genesisEntries)
    (saved : save app sequence chainHash lineage genesisEntries tickWatermark = .ok file) :
    load A file = .ok (app,
      { appVersion := (Application.appVersion A).toNat, sequence, chainHash, lineage,
        genesisEntries, tickWatermark := some tickWatermark, len := headerSizeV5 }) := by
  have width := snapshotFields_length (Application.appVersion A) sequence chainHash lineage
    genesisEntries tickWatermark
  have parsed := parse_snapshotFields inRange (Application.appVersion A) chainHash tickWatermark
    (Application.snapshot app)
  simp only [save] at saved
  generalize headerEq : (snapshotFields (Application.appVersion A) sequence chainHash lineage
    genesisEntries tickWatermark).flatten = header at saved width parsed
  generalize dataEq : header ++ Application.snapshot app = data at saved parsed
  split at saved
  · simp at saved
  · rename_i fits
    obtain rfl := Except.ok.inj saved
    have dataLength : headerSizeV5 ≤ data.length := by
      rw [← dataEq, List.length_append, width]
      omega
    have dataEnd : (data ++ leBytes 4 (Hashing.crc32c data).toNat).length - crcSize
        = data.length := by simp [crcSize]
    have notShort : ¬ (data ++ leBytes 4 (Hashing.crc32c data).toNat).length
        < headerSizeV1 + crcSize := by
      have shorter : headerSizeV1 ≤ headerSizeV5 := by decide
      simp only [List.length_append, leBytes_length, crcSize]
      omega
    -- The checksum lies right behind the data, and the data is what it was taken over.
    have stored : slice (data ++ leBytes 4 (Hashing.crc32c data).toNat) data.length crcSize
        = leBytes 4 (Hashing.crc32c data).toNat := by
      simp [slice, crcSize, List.take_of_length_le]
    have payload : data.drop headerSizeV5 = Application.snapshot app := by
      rw [← dataEq, ← width, List.drop_left]
    rw [load, if_neg fits, if_neg notShort, dataEnd]
    simp only [stored, ofNat_leNat_crc, List.take_left, ne_eq, not_true_eq_false, if_false, parsed,
      bind, Except.bind, payload, LawfulApplication.restore_snapshot]

end

end Melin
