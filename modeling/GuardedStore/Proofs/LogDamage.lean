import GuardedStore.Proofs.ByteDamage
import GuardedStore.Proofs.LogFile

/-!
# LogDamage — a log with a changed byte

The checksum of a frame finds every changed byte behind the length (`Step.read_of_changed`), and a
log with such a frame is refused and left as it is.  The length itself is not protected: before its
checksum can be looked at it has to be believed.  So a length that was changed into a greater one
looks like that of a frame that was never finished, and all commits from there on are cut off
(`openAt_of_overlong`).
-/

namespace GuardedStore
namespace Log

open Bytes

variable {path : String} {bytes whole head : ByteArray} {pos k : Nat} {f : Frame}
  {commits : List (UInt64 × Change)}

/-! ## One frame -/

namespace Frame

/-- Whether a number can be the length of a frame. -/
def IsLength (n : Nat) : Prop := overhead ≤ n ∧ n ≤ largestBody

/-- The length that is announced at a position. -/
def announced (bytes : ByteArray) (pos : Nat) : Nat := natAt bytes pos 4

/-- A frame of the announced length would end in the checksum of its bytes. -/
def Sums (bytes : ByteArray) (pos : Nat) : Prop :=
  natAt bytes (pos + announced bytes pos) 4 =
    (Digest.Crc32c.checksum bytes pos (pos + announced bytes pos)).toNat

end Frame

namespace Step

theorem read_of_not_isLength (hsize : pos + 4 ≤ bytes.size)
    (hlength : ¬ Frame.IsLength (Frame.announced bytes pos)) : read bytes pos = .corrupt := by
  unfold Frame.IsLength Frame.announced at hlength
  unfold read
  rw [if_neg (by omega), if_neg (by omega)]
  simp only
  rw [if_pos (by omega)]

theorem read_of_overlong (hsize : pos + 4 ≤ bytes.size)
    (hlength : Frame.IsLength (Frame.announced bytes pos))
    (hover : bytes.size < pos + 4 + Frame.announced bytes pos) : read bytes pos = .truncated := by
  unfold Frame.IsLength Frame.announced at hlength
  unfold Frame.announced at hover
  unfold read
  rw [if_neg (by omega), if_neg (by omega)]
  simp only
  rw [if_neg (by omega), if_pos hover]

theorem read_of_not_sums (hlength : Frame.IsLength (Frame.announced bytes pos))
    (hsize : pos + 4 + Frame.announced bytes pos ≤ bytes.size) (hsums : ¬ Frame.Sums bytes pos) :
    read bytes pos = .corrupt := by
  unfold Frame.IsLength at hlength
  unfold Frame.Sums at hsums
  unfold Frame.announced at hlength hsize hsums
  unfold read
  rw [if_neg (by omega), if_neg (by omega)]
  simp only
  rw [if_neg (by omega), if_neg (by omega), if_pos hsums]

/-- Changed bytes behind the length of a frame are found, if there are at most four of them in a row
in front of the checksum, or if only the checksum was changed. -/
theorem read_of_altered {count : Nat} (hat : At whole pos f.encoded)
    (hfit : f.bodySize ≤ Frame.largestBody) (h : Altered whole bytes k count) (hbody : pos + 4 ≤ k)
    (hwhere : count ≤ 4 ∧ k + count ≤ pos + f.bodySize ∨
      pos + f.bodySize ≤ k ∧ k + count ≤ pos + f.encoded.size) : read bytes pos = .corrupt := by
  have hwithin := hat.within
  rw [Frame.size_encoded] at hwithin hwhere
  -- the length is what it was
  have hannounced : Frame.announced bytes pos = f.bodySize := by
    rw [Frame.announced, h.natAt_eq (Or.inr hbody), Frame.natAt_length_of_at hat hfit]
  have hover : Frame.overhead ≤ f.bodySize := Nat.le_add_right _ _
  refine read_of_not_sums ?_ ?_ ?_
  · rw [hannounced]
    exact ⟨hover, hfit⟩
  · rw [hannounced, h.size]
    omega
  · -- either the checksum was changed or what it is of, but not both
    have hcrc := Frame.natAt_checksum_of_at hat
    rw [Frame.Sums, hannounced]
    rcases hwhere with ⟨hfew, hcovered⟩ | ⟨hsum, hstop⟩
    · rw [h.natAt_eq (Or.inl hcovered), hcrc, UInt32.toNat_inj]
      exact (h.checksum_ne hfew (by omega) hcovered).symm
    · rw [h.checksum_eq hsum, ← hcrc]
      exact h.natAt_ne hsum (by omega)

/-- A changed byte behind the length of a frame is found. -/
theorem read_of_changed (hat : At whole pos f.encoded) (hfit : f.bodySize ≤ Frame.largestBody)
    (hdiffer : Differ whole bytes k) (hbody : pos + 4 ≤ k) (hin : k < pos + f.encoded.size) :
    read bytes pos = .corrupt := by
  refine read_of_altered hat hfit hdiffer.altered hbody ?_
  omega

end Step

/-! ## The log -/

/-- A log is refused if something that cannot be a frame comes behind some frames. -/
theorem recover_of_corrupt (path : String) (hhead : IsHeader head) (hat : At bytes 0 head)
    (hframes : At bytes headerSize (Scan.joined (commits.map frameOf)))
    (hfits : ∀ f ∈ commits.map frameOf, f.bodySize ≤ Frame.largestBody)
    (hread : Step.read bytes (logBytes commits).size = .corrupt) :
    ∃ e, recover path bytes = .error e := by
  have hwithin := hframes.within
  have hscan := Scan.run_frames _ hframes hfits
  rw [← size_logBytes, Scan.run_of_corrupt hread, List.append_nil] at hscan
  have hnonempty : bytes.size ≠ 0 := by
    unfold headerSize at hwithin
    omega
  rw [recover, if_neg hnonempty]
  simp only [replay, checkHeader_of_at path hhead hat, hscan]
  -- the commits in front may be refused already
  cases readCommits path 0 (Scan.positions headerSize (commits.map frameOf)) with
  | error e => exact ⟨e, rfl⟩
  | ok commits => exact ⟨_, rfl⟩

/-- What comes behind some commits and looks like the beginning of a frame is cut off. -/
theorem recover_of_truncated (path : String) (hhead : IsHeader head) (hat : At bytes 0 head)
    (hframes : At bytes headerSize (Scan.joined (commits.map frameOf)))
    (hascending : Ascending 0 commits) (hrest : (logBytes commits).size < bytes.size)
    (hread : Step.read bytes (logBytes commits).size = .truncated) :
    recover path bytes = .ok (bytes.extract 0 (logBytes commits).size,
      ⟨commits, Replay.lastOf 0 commits, (logBytes commits).size,
        bytes.size - (logBytes commits).size⟩) := by
  have hscan := Scan.run_frames _ hframes (fits_frameOf (fun _ => hascending.fits))
  rw [← size_logBytes, Scan.run_of_truncated hread, List.append_nil] at hscan
  have hstop := Scan.stopAt_positions headerSize (commits.map frameOf) .truncated
  rw [← size_logBytes] at hstop
  rw [recover, if_neg (by omega)]
  simp only [replay, checkHeader_of_at path hhead hat, hscan, readCommits_positions hascending,
    hstop]
  rw [if_neg (by omega)]

end Log

namespace CommitLog

open Log Bytes

variable {d : Disk} {path : String} {file k : Nat} {head whole bytes : ByteArray}
  {earlier later : List (UInt64 × Change)} {commit : UInt64 × Change}

theorem openAt_of_refused (hlinked : d.Linked path file) (hcontent : d.content file = .bytes bytes)
    (hrecover : ∃ e, recover path bytes = .error e) :
    ∃ e, openAt d path = (d, .error e) := by
  rcases hrecover with ⟨e, hrecover⟩
  refine ⟨e, ?_⟩
  have hbytes : d.bytes file = bytes := Disk.bytes_eq hcontent
  simp only [openAt, hlinked.makeParents, hlinked.open?, hbytes, hrecover]

/-- A file with the bytes of a log, one byte of one of its frames changed. -/
structure Damaged (d : Disk) (path : String) (file : Nat) (bytes : ByteArray)
    (earlier : List (UInt64 × Change)) (commit : UInt64 × Change)
    (later : List (UInt64 × Change)) (k : Nat) : Prop where
  linked : d.Linked path file
  content : d.content file = .bytes bytes
  fits : ∀ c ∈ earlier ++ commit :: later, c.2.Fits
  -- what the file held before, with any header that is accepted
  differ : ∃ head, IsHeader head ∧
    Differ (head ++ Scan.joined ((earlier ++ commit :: later).map frameOf)) bytes k
  -- the byte belongs to the frame of the commit
  start : (logBytes earlier).size ≤ k
  stop : k < (logBytes earlier).size + (frameOf commit).encoded.size

namespace Damaged

theorem fits_earlier (h : Damaged d path file bytes earlier commit later k) :
    ∀ f ∈ earlier.map frameOf, f.bodySize ≤ Frame.largestBody := by
  intro f hf
  rcases List.mem_map.1 hf with ⟨c, hc, rfl⟩
  rw [bodySize_frameOf]
  exact h.fits c (by simp [hc])

/-- What stood in the file before, and what still stands there in front of the changed frame. -/
theorem spans (h : Damaged d path file bytes earlier commit later k) :
    ∃ head whole, IsHeader head ∧ Differ whole bytes k ∧
      At whole (logBytes earlier).size (frameOf commit).encoded ∧
      At bytes 0 head ∧ At bytes headerSize (Scan.joined (earlier.map frameOf)) := by
  rcases h.differ with ⟨head, hhead, hdiffer⟩
  have hstart := h.start
  have hsize : (logBytes earlier).size = head.size + (Scan.joined (earlier.map frameOf)).size := by
    rw [size_logBytes, hhead.size]
  have hjoined : Scan.joined ((earlier ++ commit :: later).map frameOf) =
      Scan.joined (earlier.map frameOf) ++
        ((frameOf commit).encoded ++ Scan.joined (later.map frameOf)) := by
    simp [Scan.joined, concat_append]
  rw [hjoined] at hdiffer
  have hall := at_self (head ++ (Scan.joined (earlier.map frameOf) ++
    ((frameOf commit).encoded ++ Scan.joined (later.map frameOf))))
  have hframes := hall.right
  rw [Nat.zero_add] at hframes
  have hframe := hframes.right.left
  rw [← hsize] at hframe
  refine ⟨head, _, hhead, hdiffer, hframe, ?_, ?_⟩
  · exact hdiffer.span hall.left (Or.inr (by omega))
  · rw [← hhead.size]
    exact hdiffer.span hframes.left (Or.inr (by omega))

theorem length_within (h : Damaged d path file bytes earlier commit later k) :
    (logBytes earlier).size + 4 ≤ bytes.size := by
  rcases h.spans with ⟨_, whole, -, hdiffer, hframe, -, -⟩
  have hwithin := hframe.within
  rw [Frame.size_encoded] at hwithin
  have hsize := hdiffer.size
  omega

/-- Whatever cannot be a frame is damage, and the file is left as it is. -/
theorem openAt_of_corrupt (h : Damaged d path file bytes earlier commit later k)
    (hread : Step.read bytes (logBytes earlier).size = .corrupt) :
    ∃ e, openAt d path = (d, .error e) := by
  rcases h.spans with ⟨head, _, hhead, -, -, hat, hframes⟩
  exact openAt_of_refused h.linked h.content
    (recover_of_corrupt path hhead hat hframes h.fits_earlier hread)

/-- A length that reaches over the end is taken for that of a frame that was never finished, and all
commits from there on are cut off. -/
theorem openAt_of_overlong (h : Damaged d path file bytes earlier commit later k)
    (hascending : Ascending 0 earlier)
    (hlength : Frame.IsLength (Frame.announced bytes (logBytes earlier).size))
    (hover : bytes.size <
      (logBytes earlier).size + 4 + Frame.announced bytes (logBytes earlier).size) :
    openAt d path = (d.setContent file (.bytes (bytes.extract 0 (logBytes earlier).size)),
      .ok (opened path file earlier, ⟨earlier, Replay.lastOf 0 earlier, (logBytes earlier).size,
        bytes.size - (logBytes earlier).size⟩)) := by
  rcases h.spans with ⟨head, _, hhead, -, -, hat, hframes⟩
  have hwithin := h.length_within
  have hrecover := recover_of_truncated path hhead hat hframes hascending (by omega)
    (Step.read_of_overlong hwithin hlength hover)
  have hbytes : d.bytes file = bytes := Disk.bytes_eq h.content
  simp only [openAt, h.linked.makeParents, h.linked.open?, hbytes, hrecover, opened]

end Damaged

/-- A log with a changed byte is refused and left as it is, unless the byte belongs to the length of
a frame and a frame of the new length may stand there: one that reaches over the end, or one that
the bytes happen to be the checksum of.  In the former case all commits from there on are lost. -/
theorem openAt_of_damaged (h : Damaged d path file bytes earlier commit later k) :
    ((∃ e, openAt d path = (d, .error e)) ∨
      k < (logBytes earlier).size + 4 ∧
        Frame.IsLength (Frame.announced bytes (logBytes earlier).size) ∧
        (bytes.size <
            (logBytes earlier).size + 4 + Frame.announced bytes (logBytes earlier).size ∨
          Frame.Sums bytes (logBytes earlier).size)) ∧
    (Frame.IsLength (Frame.announced bytes (logBytes earlier).size) →
      bytes.size < (logBytes earlier).size + 4 + Frame.announced bytes (logBytes earlier).size →
        Ascending 0 earlier →
          ∃ d' log replay, openAt d path = (d', .ok (log, replay)) ∧ replay.commits = earlier ∧
            d'.content file = .bytes (bytes.extract 0 (logBytes earlier).size)) := by
  refine ⟨?_, ?_⟩
  · by_cases hbody : (logBytes earlier).size + 4 ≤ k
    · rcases h.spans with ⟨head, whole, -, hdiffer, hframe, -, -⟩
      have hfit : (frameOf commit).bodySize ≤ Frame.largestBody := by
        rw [bodySize_frameOf]
        exact h.fits commit (by simp)
      exact Or.inl (h.openAt_of_corrupt (Step.read_of_changed hframe hfit hdiffer hbody h.stop))
    · by_cases hlength : Frame.IsLength (Frame.announced bytes (logBytes earlier).size)
      · by_cases hmisread : bytes.size <
            (logBytes earlier).size + 4 + Frame.announced bytes (logBytes earlier).size ∨
          Frame.Sums bytes (logBytes earlier).size
        · exact Or.inr ⟨Nat.lt_of_not_le hbody, hlength, hmisread⟩
        · -- a frame of the new length would fit, and its checksum tells
          rcases not_or.1 hmisread with ⟨hwithin, hsums⟩
          exact Or.inl (h.openAt_of_corrupt
            (Step.read_of_not_sums hlength (Nat.le_of_not_lt hwithin) hsums))
      · exact Or.inl (h.openAt_of_corrupt (Step.read_of_not_isLength h.length_within hlength))
  · intro hlength hover hascending
    exact ⟨_, _, _, h.openAt_of_overlong hascending hlength hover, rfl, by simp⟩

/-! ## Two commits -/

/-- The bytes of a log with two updates. -/
def twoUpdates : ByteArray := logBytes [(1, ⟨[("/a", "v")], []⟩), (2, ⟨[("/b", "w")], []⟩)]

theorem exists_damaged {bytes : ByteArray} (hdiffer : Differ twoUpdates bytes k)
    (hstart : headerSize ≤ k) (hstop : k < 33) :
    ∃ d, Damaged d "store" 0 bytes [] (1, ⟨[("/a", "v")], []⟩) [(2, ⟨[("/b", "w")], []⟩)] k := by
  have hlinked : (Disk.empty.place ["store"] (.bytes bytes)).1.Linked "store" 0 :=
    Disk.Linked.place (Or.inl rfl) rfl (by decide) _
  refine ⟨_, hlinked, rfl, by decide, ⟨header, isHeader_header, hdiffer⟩, hstart, ?_⟩
  rw [Frame.size_encoded, bodySize_frameOf]
  exact hstop

theorem size_twoUpdates : twoUpdates.size = 58 := by
  decide

/-- A changed byte of a value is found. -/
theorem openAt_of_damaged_value :
    ∃ d bytes, Damaged d "store" 0 bytes [] (1, ⟨[("/a", "v")], []⟩) [(2, ⟨[("/b", "w")], []⟩)] 27 ∧
      ∃ e, openAt d "store" = (d, .error e) := by
  have hvalue : (119 : UInt8) ≠ byteAt twoUpdates 27 := by decide
  rcases exists_differ (by rw [size_twoUpdates]; decide) hvalue with ⟨bytes, hdiffer, -⟩
  rcases exists_damaged hdiffer (by decide) (by decide) with ⟨d, h⟩
  refine ⟨d, bytes, h, (openAt_of_damaged h).1.resolve_right ?_⟩
  rintro ⟨hlength, -⟩
  exact absurd hlength (by decide)

/-- A length of which the first byte is one instead of zero. -/
theorem announced_of_changed {bytes : ByteArray} (hdiffer : Differ twoUpdates bytes headerSize)
    (hbyte : byteAt bytes headerSize = 1) : Frame.announced bytes headerSize = 2 ^ 24 + 21 := by
  have hrest : ∀ i, i ≠ 0 → byteAt bytes (headerSize + i) = byteAt twoUpdates (headerSize + i) := by
    intro i hi
    exact hdiffer.agree _ (by omega)
  have hbytes : byteAt twoUpdates (headerSize + 1) = 0 ∧ byteAt twoUpdates (headerSize + 2) = 0 ∧
      byteAt twoUpdates (headerSize + 3) = 21 := by decide
  simp only [Frame.announced, natAt, Nat.add_zero, hbyte, hrest 1 (by decide), hrest 2 (by decide),
    hrest 3 (by decide), hbytes]
  decide

/-- A single changed byte in the first of two frames, and both commits are gone: the log is opened
as an empty one, and its file is cut down to the header. -/
theorem exists_discarded :
    ∃ d bytes, Damaged d "store" 0 bytes [] (1, ⟨[("/a", "v")], []⟩) [(2, ⟨[("/b", "w")], []⟩)] 8 ∧
      ∃ d' log, openAt d "store" = (d', .ok (log, ⟨[], 0, 8, 50⟩)) ∧
        d'.content 0 = .bytes header := by
  have hfirst : (1 : UInt8) ≠ byteAt twoUpdates headerSize := by decide
  rcases exists_differ (by rw [size_twoUpdates]; decide) hfirst with ⟨bytes, hdiffer, hbyte⟩
  rcases exists_damaged hdiffer (by decide) (by decide) with ⟨d, h⟩
  have hsize : bytes.size = 58 := by rw [hdiffer.size, size_twoUpdates]
  have hannounced := announced_of_changed hdiffer hbyte
  have hempty : (logBytes []).size = headerSize := by decide
  -- the length is one that a frame may have, and reaches far over the end
  have hlength : Frame.IsLength (Frame.announced bytes (logBytes []).size) := by
    rw [hempty, hannounced]
    exact ⟨by decide, by decide⟩
  have hopen := h.openAt_of_overlong (.nil 0) hlength
    (by rw [hempty, hannounced, hsize]; decide)
  rw [hempty, hsize] at hopen
  have hheader : At bytes 0 header := by
    refine hdiffer.span ?_ (Or.inr (Nat.le_of_eq (by rw [size_header, Nat.zero_add])))
    exact (at_self twoUpdates).left
  have hkept := hheader.extract_self
  rw [size_header, Nat.zero_add] at hkept
  refine ⟨d, bytes, h, _, _, hopen, ?_⟩
  rw [hkept, Disk.content_setContent]

end CommitLog
end GuardedStore
