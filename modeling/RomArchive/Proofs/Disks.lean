import RomArchive.Proofs.Governing
import RomArchive.Proofs.Widening

/-!
# Directories on several disks

A container that was split says so in two ways: its directory begins on another disk than the record
that governs is on, or this disk holds another number of the directory's records than there are
altogether. There are two readers that look for this, one for either kind of record. The reader of
plain records refuses both. The reader of wide records compares the disks only; it is handed the two
counts as well and compares nothing, so a part is loaded as if it were the whole.

Nothing is assumed here of the source: it may fail, deliver less than it claims, or change.

## Main definitions

* `GoverningRecord.BeginsElsewhere`, `GoverningRecord.HoldsPart` — the two ways to be split

## Main results

* `GoverningRecord.not_takenAsWhole_plain_iff_wide` — how the two readers differ on the same values
* `Source.multiDisk_iff` — what is refused for being split
* `Source.exists_split_loaded` — a wide record of a split container that is not refused
-/

namespace RomArchive

namespace GoverningRecord

/-- The directory begins on another disk than the record is on. -/
def BeginsElsewhere (governing : GoverningRecord) : Prop :=
  governing.disk ≠ governing.directoryDisk

/-- The disk holds another number of the directory's records than there are. -/
def HoldsPart (governing : GoverningRecord) : Prop :=
  governing.diskEntries ≠ governing.extent.entries

theorem not_takenAsWhole_plain (record : EndRecord) : ¬ TakenAsWhole (.plain record) ↔
    BeginsElsewhere (.plain record) ∨ HoldsPart (.plain record) := by
  simp only [TakenAsWhole, Decidable.not_and_iff_not_or_not, ← UInt16.toNat_inj]
  rfl

theorem not_takenAsWhole_wide (record : WideEndRecord) :
    ¬ TakenAsWhole (.wide record) ↔ BeginsElsewhere (.wide record) := by
  simp only [TakenAsWhole, ← UInt32.toNat_inj]
  rfl

/-- **The two readers differ by the counts**: on the same disk numbers, the plain record is refused
where the wide one is, and besides where its own counts differ. -/
theorem not_takenAsWhole_plain_iff_wide {narrow : EndRecord} {wide : WideEndRecord}
    (hdisk : narrow.disk.toNat = wide.disk.toNat)
    (hdirectoryDisk : narrow.directoryDisk.toNat = wide.directoryDisk.toNat) :
    ¬ TakenAsWhole (.plain narrow) ↔
      ¬ TakenAsWhole (.wide wide) ∨ HoldsPart (.plain narrow) := by
  have hsame : BeginsElsewhere (.plain narrow) ↔ BeginsElsewhere (.wide wide) := by
    simp only [BeginsElsewhere, disk, directoryDisk, hdisk, hdirectoryDisk]
  rw [not_takenAsWhole_plain, not_takenAsWhole_wide, hsame]

end GoverningRecord

namespace Source

variable {source : Source} {place : EndRecord.Place} {governing : GoverningRecord}

/-- A directory that is refused for being split was not taken as a whole: what is done with an
extent fails in other ways. -/
theorem directory_eq_multiDisk_iff (hplace : source.endRecord = .ok place)
    (hgoverned : source.GovernedBy place governing) :
    source.directory = .error (.invalidArchive .multiDisk) ↔ ¬ governing.TakenAsWhole := by
  have hextent := hgoverned.directoryExtent
  by_cases hwhole : governing.TakenAsWhole
  · rw [if_pos hwhole] at hextent
    refine iff_of_false (fun hrefused => ?_) (not_not_intro hwhole)
    by_cases houtside : place.offset < governing.extent.offset + governing.extent.size
    · cases (directory_of_outside hplace hextent houtside).symm.trans hrefused
    · simp only [Source.directory, hplace, hextent, bind, Except.bind] at hrefused
      rw [if_neg houtside, Delivery.checked] at hrefused
      cases hfault : (source.fill governing.extent.offset governing.extent.size).fault with
      | none => rw [hfault] at hrefused; cases hrefused
      | some fault => rw [hfault] at hrefused; cases hrefused
  · rw [if_neg hwhole] at hextent
    exact iff_of_true (directory_of_directoryExtent hplace hextent) hwhole

/-- **What is refused for being split**, by any source: a directory that begins on another disk, and
one of which the disk holds a part, if the record that says so is the plain one. -/
theorem multiDisk_iff (hplace : source.endRecord = .ok place)
    (hgoverned : source.GovernedBy place governing) :
    source.directory = .error (.invalidArchive .multiDisk) ↔
      governing.BeginsElsewhere ∨ ¬ place.record.HasSentinel ∧ governing.HoldsPart := by
  rw [directory_eq_multiDisk_iff hplace hgoverned]
  cases hgoverned with
  | plain hplain =>
    rw [GoverningRecord.not_takenAsWhole_plain]
    exact or_congr_right (and_iff_right hplain).symm
  | wide hwide _ =>
    rw [GoverningRecord.not_takenAsWhole_wide]
    exact (or_iff_left fun hpart => hpart.1 hwide).symm

/-- A wide record whose directory begins on the disk behind its own. -/
theorem multiDisk_iff_bareWide :
    let record : WideEndRecord := ⟨44, 45, 45, 0, 1, 1, 1, 20, 10⟩
    (ofBytes (bareWide record)).endRecord = .ok ⟨allOnes, 76⟩ ∧
    (ofBytes (bareWide record)).GovernedBy ⟨allOnes, 76⟩ (.wide record) ∧
    (ofBytes (bareWide record)).directory = .error (.invalidArchive .multiDisk) := by
  intro record
  have hplace := endRecord_bareWide record
  have hgoverned : (ofBytes (bareWide record)).GovernedBy ⟨allOnes, 76⟩ (.wide record) :=
    ((holds_ofBytes _).governedBy_iff_of_endRecord hplace).2 (governs_bareWide record)
  have hdisks : GoverningRecord.BeginsElsewhere (.wide record) := Nat.zero_ne_one
  exact ⟨hplace, hgoverned, (multiDisk_iff hplace hgoverned).2 (.inl hdisks)⟩

/-- A container of two files whose wide record says that one of their two records is on this
disk. -/
def partedSample : Widening :=
  { Widening.sample with
    wideEnd := ⟨44, 45, 45, 0, 0, 1, 2, 153, 89⟩
    endRecord := ⟨0, 0, 0xFFFF, 0xFFFF, 153, 0xFFFFFFFF, 2⟩ }

/-- **Not all that is split is refused.** Both records are loaded here. -/
theorem exists_split_loaded : ¬ ∀ (source : Source) (place : EndRecord.Place)
    (governing : GoverningRecord), source.endRecord = .ok place →
      source.GovernedBy place governing → governing.BeginsElsewhere ∨ governing.HoldsPart →
        ∃ failure, source.directory = .error failure := by
  intro hrefuses
  have hplace : (ofBytes partedSample.bytes).endRecord = .ok ⟨partedSample.endRecord, 318⟩ := by
    decide +kernel
  have hread : (ofBytes partedSample.bytes).wideEndRecord 318 = .ok partedSample.wideEnd := by
    decide +kernel
  have hpart : GoverningRecord.HoldsPart (.wide partedSample.wideEnd) := by
    show (1 : Nat) ≠ 2
    decide
  obtain ⟨failure, hfailure⟩ := hrefuses _ _ _ hplace (.wide (.inr (.inl rfl)) hread) (.inr hpart)
  have hload : (ofBytes partedSample.bytes).directory = .ok ⟨partedSample.directoryBytes, 2⟩ := by
    decide +kernel
  cases hload.symm.trans hfailure

end Source

end RomArchive
