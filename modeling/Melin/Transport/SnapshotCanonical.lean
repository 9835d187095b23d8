import Melin.Examples.Counter
import Melin.Transport.SnapshotLaws

/-! The snapshot codec in both directions: saves read back, and only their own bytes are accepted. -/

namespace Melin

open Lib

theorem lineageFlags_canonical (flags : UInt8) (unreserved : flags &&& ~~~lineageFlags = 0) :
    flags = (if flags &&& lineageGenesisKnown ≠ 0 then lineageGenesisKnown else 0) |||
      (if flags &&& lineageAckPolicyKnown ≠ 0 then lineageAckPolicyKnown else 0) |||
      (if flags &&& lineagePreviousKnown ≠ 0 then lineagePreviousKnown else 0) |||
      if flags &&& lineageUnwitnessed ≠ 0 then lineageUnwitnessed else 0 := by
  -- There are 256 bytes, checked by the kernel.
  obtain ⟨⟨flags⟩⟩ := flags
  revert flags
  decide +kernel

theorem has_previous_or_unwitnessed (flags : UInt8) :
    flags &&& (lineagePreviousKnown ||| lineageUnwitnessed) ≠ 0 ↔
      flags &&& lineagePreviousKnown ≠ 0 ∨ flags &&& lineageUnwitnessed ≠ 0 := by
  obtain ⟨⟨flags⟩⟩ := flags
  revert flags
  decide +kernel

theorem parseLineage_canonical {bytes : Bytes} {genesisEntries : Option Nat}
    {ackPolicy : Option LineagePolicy}
    (parsed : parseLineage bytes = .ok (genesisEntries, ackPolicy)) :
    bytes.getD 64 0 = flagsOf genesisEntries ackPolicy ∧
      bytes.getD 65 0 = (ackPolicy.map (·.change.policy.byte)).getD 0 ∧
      bytes.getD 66 0 = ((ackPolicy.bind (·.previous)).map (·.byte)).getD 0 ∧
      leNat (slice bytes 67 8) = (ackPolicy.map (·.wireSeq)).getD 0 ∧
      leNat (slice bytes 56 8) = genesisEntries.getD 0 := by
  simp only [parseLineage] at parsed
  generalize bytes.getD 64 0 = flags at parsed ⊢
  generalize bytes.getD 65 0 = policy at parsed ⊢
  generalize bytes.getD 66 0 = previous at parsed ⊢
  generalize leNat (slice bytes 67 8) = wireSeq at parsed ⊢
  generalize leNat (slice bytes 56 8) = genesis at parsed ⊢
  split at parsed
  · simp at parsed
  · rename_i wellFormed
    simp only [not_or, not_and, not_not, has_previous_or_unwitnessed] at wellFormed
    obtain ⟨unreserved, noGenesis, noPolicy, noPrevious⟩ := wellFormed
    have union := lineageFlags_canonical flags unreserved
    simp only [Except.ok.injEq, Prod.mk.injEq] at parsed
    obtain ⟨rfl, rfl⟩ := parsed
    refine ⟨union.trans ?_, ?_, ?_, ?_, ?_⟩
    · -- Previous policy and unwitnessed transition are flagged only beside a policy.
      by_cases hasPolicy : flags &&& lineageAckPolicyKnown = 0
      · obtain ⟨-, -, noPreviousFlag, noUnwitnessed⟩ := noPolicy hasPolicy
        by_cases hasGenesis : flags &&& lineageGenesisKnown = 0 <;>
          simp [flagsOf, hasGenesis, hasPolicy, noPreviousFlag, noUnwitnessed]
      · by_cases hasGenesis : flags &&& lineageGenesisKnown = 0 <;>
          by_cases hasPrevious : flags &&& lineagePreviousKnown = 0 <;>
          by_cases hasUnwitnessed : flags &&& lineageUnwitnessed = 0 <;>
          simp [flagsOf, hasGenesis, hasPolicy, hasPrevious, hasUnwitnessed, UInt8.or_assoc]
    · by_cases hasPolicy : flags &&& lineageAckPolicyKnown = 0
      · simp [hasPolicy, noPolicy hasPolicy]
      · simp [hasPolicy]
    · by_cases hasPrevious : flags &&& lineagePreviousKnown = 0
      · have zero := noPrevious hasPrevious
        by_cases hasPolicy : flags &&& lineageAckPolicyKnown = 0 <;>
          simp [hasPolicy, hasPrevious, zero]
      · have hasPolicy : flags &&& lineageAckPolicyKnown ≠ 0 := fun none =>
          hasPrevious (noPolicy none).2.2.1
        simp [hasPolicy, hasPrevious]
    · by_cases hasPolicy : flags &&& lineageAckPolicyKnown = 0
      · simp [hasPolicy, noPolicy hasPolicy]
      · simp [hasPolicy]
    · by_cases hasGenesis : flags &&& lineageGenesisKnown = 0
      · simp [hasGenesis, noGenesis hasGenesis]
      · simp [hasGenesis]

theorem parse_canonical {bytes : Bytes} {header : SnapshotHeader}
    (version : leNat (slice bytes 4 2) = transportVersion)
    (parsed : SnapshotHeader.parse bytes = .ok header) :
    header.len = headerSizeV5 ∧ ∃ watermark, header.tickWatermark = some watermark ∧
      ∀ appVersion : UInt16, header.appVersion = appVersion.toNat →
        (snapshotFields appVersion header.sequence header.chainHash header.lineage
          header.genesisEntries watermark).flatten = bytes.take headerSizeV5 := by
  have known : headerLength transportVersion = some headerSizeV5 := rfl
  simp only [SnapshotHeader.parse, version, known, or_true, if_true] at parsed
  split at parsed
  · simp at parsed
  split at parsed
  · simp at parsed
  rename_i magic
  rw [not_not] at magic
  split at parsed
  · simp at parsed
  rename_i long
  have inside : 83 ≤ bytes.length := Nat.le_of_not_lt long
  cases lineage : parseLineage bytes with
  | error err => simp [lineage, bind, Except.bind] at parsed
  | ok found =>
    obtain ⟨genesisEntries, ackPolicy⟩ := found
    simp only [lineage, bind, Except.bind, pure, Except.pure, Except.ok.injEq] at parsed
    subst parsed
    refine ⟨rfl, _, rfl, fun appVersion same => ?_⟩
    obtain ⟨flags, policy, previous, wireSeq, genesis⟩ := parseLineage_canonical lineage
    have chain : (readDigest bytes 16).bytes = slice bytes 16 32 := by
      rw [readDigest, dif_pos (slice_length (by omega))]
    have width : headerSizeV4 = 75 := rfl
    have later : (transportVersion = 1) = False := by decide
    -- Every field a save writes is the window it was read from, and the windows make the header.
    have fields : snapshotFields appVersion (leNat (slice bytes 8 8)) (readDigest bytes 16)
        { epoch := UInt64.ofNat (leNat (slice bytes 48 8)), ackPolicy } genesisEntries
        ⟨UInt64.ofNat (leNat (slice bytes headerSizeV4 8))⟩
          = windows bytes 0 [4, 2, 2, 8, 32, 8, 8, 1, 1, 1, 8, 8] := by
      rw [snapshotFields, ← flags, ← policy, ← previous, ← wireSeq, ← genesis, ← same, ← magic,
        ← version, chain, slice_one (by omega), slice_one (by omega), slice_one (by omega)]
      rw [leBytes_slice (by omega), leBytes_slice (by omega), leBytes_slice (by omega),
        leBytes_slice (by omega), leBytes_slice (by omega), leBytes_slice (by omega)]
      dsimp only
      rw [leBytes_ofNat_slice (by omega), leBytes_ofNat_slice (by rw [width]; omega), width]
      rfl
    simp only [later, if_false]
    rw [fields, flatten_windows]
    rfl

section

variable {A E R : Type} [Application A E R] [Hashing]

theorem save_load [LawfulApplication A]
    (exact' : ∀ (payload : Bytes) (app : A), Application.restore payload = .ok (app, []) →
      ∃ state : A, payload = Application.snapshot state)
    {bytes : Bytes} {app : A} {header : SnapshotHeader}
    (version : leNat (slice bytes 4 2) = transportVersion)
    (loaded : load A bytes = .ok (app, header)) :
    ∃ watermark, header.tickWatermark = some watermark ∧
      save app header.sequence header.chainHash header.lineage header.genesisEntries watermark
        = .ok bytes := by
  simp only [load] at loaded
  split at loaded
  · simp at loaded
  split at loaded
  · simp at loaded
  split at loaded
  · simp at loaded
  rename_i small long checksum
  have room : crcSize ≤ bytes.length := by
    have enough : crcSize ≤ headerSizeV1 + crcSize := by decide
    omega
  have wide : headerSizeV1 = 48 := rfl
  have narrow : crcSize = 4 := rfl
  -- The file is its data and, behind it, the checksum of the data.
  generalize dataEq : bytes.take (bytes.length - crcSize) = data at loaded checksum
  have dataLength : data.length = bytes.length - crcSize := by
    rw [← dataEq, List.length_take]
    omega
  have sealed : bytes = data ++ leBytes 4 (Hashing.crc32c data).toNat := by
    have stored : leBytes 4 (Hashing.crc32c data).toNat
        = slice bytes (bytes.length - crcSize) crcSize := by
      have fits := leNat_lt (slice bytes (bytes.length - crcSize) crcSize)
      rw [slice_length (by omega)] at fits
      rw [← not_not.mp checksum, UInt32.toNat_ofNat_of_lt' fits]
      exact leBytes_slice (by omega)
    have rest : slice bytes (bytes.length - crcSize) crcSize
        = bytes.drop (bytes.length - crcSize) :=
      List.take_of_length_le (by rw [List.length_drop]; omega)
    rw [stored, rest, ← dataEq, List.take_append_drop]
  have sameVersion : leNat (slice data 4 2) = transportVersion := by
    rw [← version, sealed, slice_append_left (by omega)]
  cases parsed : SnapshotHeader.parse data with
  | error err => simp [parsed, bind, Except.bind] at loaded
  | ok found =>
    simp only [parsed, bind, Except.bind] at loaded
    split at loaded
    · simp at loaded
    rename_i sameApp
    split at loaded
    · simp at loaded
    rename_i restored left restoreEq
    split at loaded
    · simp at loaded
    rename_i nothingLeft
    simp only [Except.ok.injEq, Prod.mk.injEq] at loaded
    obtain ⟨rfl, rfl⟩ := loaded
    obtain ⟨len, watermark, recorded, fields⟩ := parse_canonical sameVersion parsed
    -- The payload is a snapshot, and restoring it gave the state it is a snapshot of.
    rw [not_not.mp nothingLeft] at restoreEq
    obtain ⟨state, payload⟩ := exact' _ _ restoreEq
    have same : state = restored := by
      rw [payload, LawfulApplication.restore_snapshot] at restoreEq
      simpa using restoreEq
    have whole : (snapshotFields (Application.appVersion A) found.sequence found.chainHash
        found.lineage found.genesisEntries watermark).flatten ++ Application.snapshot restored
          = data := by
      rw [fields _ (not_not.mp sameApp), ← same, ← payload, len, List.take_append_drop]
    refine ⟨watermark, recorded, ?_⟩
    simp only [save, whole, ← sealed]
    rw [if_neg small]

/-- Saves read back as they were, and what is accepted is what a save writes. -/
theorem snapshot_codec_canonical [LawfulApplication A]
    (exact' : ∀ (payload : Bytes) (app : A), Application.restore payload = .ok (app, []) →
      ∃ state : A, payload = Application.snapshot state) :
    (∀ (app : A) (sequence : Nat) (chainHash : Digest) (lineage : Lineage)
        (genesisEntries : Option Nat) (tickWatermark : TickWatermark) (file : Bytes),
      SnapshotInRange sequence lineage genesisEntries →
      save app sequence chainHash lineage genesisEntries tickWatermark = .ok file →
      load A file = .ok (app,
        { appVersion := (Application.appVersion A).toNat, sequence, chainHash, lineage,
          genesisEntries, tickWatermark := some tickWatermark, len := headerSizeV5 })) ∧
      ∀ (bytes : Bytes) (app : A) (header : SnapshotHeader),
        leNat (slice bytes 4 2) = transportVersion → load A bytes = .ok (app, header) →
        ∃ watermark, header.tickWatermark = some watermark ∧
          save app header.sequence header.chainHash header.lineage header.genesisEntries watermark
            = .ok bytes :=
  ⟨fun _ _ _ _ _ _ _ inRange saved => load_save inRange saved,
    fun _ _ _ version loaded => save_load exact' version loaded⟩

end

theorem Counter.restore_exact (payload : Bytes) (counter : Counter)
    (restored : Application.restore payload = .ok (counter, [])) :
    ∃ state : Counter, payload = Application.snapshot state := by
  refine ⟨counter, ?_⟩
  simp only [Application.restore, Counter.restore] at restored
  split at restored
  · simp at restored
  · rename_i long
    simp only [Except.ok.injEq, Prod.mk.injEq, List.drop_eq_nil_iff] at restored
    obtain ⟨rfl, short⟩ := restored
    have width : payload.length = 8 := by omega
    have whole : payload.take 8 = slice payload 0 8 := rfl
    show payload = leBytes 8 (UInt64.ofNat (leNat (payload.take 8))).toNat
    rw [whole, leBytes_ofNat_slice (by omega), ← whole, List.take_of_length_le (by omega)]

def sampleUnwitnessed : Lineage :=
  { epoch := 2
    ackPolicy := some { change := { policy := ⟨1⟩, unwitnessed := true }, wireSeq := 2
                        previous := none } }

/-- A counter with a policy that has no predecessor, saved, read back, and saved again. -/
theorem snapshot_codec_canonical_counter :
    ∃ file header, save (⟨7⟩ : Counter) 3 .zero sampleUnwitnessed (some 1) ⟨40⟩ = .ok file ∧
      load Counter file = .ok (⟨7⟩, header) ∧ header.lineage = sampleUnwitnessed ∧
      ∃ watermark, save (⟨7⟩ : Counter) header.sequence header.chainHash header.lineage
        header.genesisEntries watermark = .ok file := by
  -- The save is evaluated as far as the version it writes.
  have versionOf : ((save (⟨7⟩ : Counter) 3 .zero sampleUnwitnessed (some 1) ⟨40⟩).toOption.map
      fun file => leNat (slice file 4 2)) = some transportVersion := by decide +kernel
  obtain ⟨reads, writes⟩ := snapshot_codec_canonical Counter.restore_exact
  cases saved : save (⟨7⟩ : Counter) 3 .zero sampleUnwitnessed (some 1) ⟨40⟩ with
  | error err => simp [saved, Except.toOption] at versionOf
  | ok file =>
    have version : leNat (slice file 4 2) = transportVersion := by
      simpa [saved, Except.toOption] using versionOf
    have loaded := reads ⟨7⟩ 3 .zero sampleUnwitnessed (some 1) ⟨40⟩ file
      ⟨by decide, by decide, by decide⟩ saved
    obtain ⟨watermark, -, again⟩ := writes file _ _ version loaded
    exact ⟨file, _, rfl, loaded, rfl, watermark, again⟩

end Melin
